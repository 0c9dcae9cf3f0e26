import TidyUse.Proofs.Consuming
import TidyUse.Proofs.RoundTrip

/-!
# The grammar of use declarations

    declaration := visibility? `use` root `;`?
    visibility  := `pub` | `pub` `(` `in` t+ `)` | `pub` `(` t `)`
    root        := step rename? | step `::` child
    child       := `{` nested (`,` nested)* `,`? `}` | nested
    nested      := `*` | step rename? | step `::` child
    step        := identifier | `self` | `crate` | `super`
    rename      := `as` identifier

Behind `pub(in` stand tokens other than `)`, and in `pub(t)` a token other than `in`.

* `Grammar.Declaration` and its parts : derivations, with a token at each leaf;
* `Declaration.tokens`, `Declaration.visibility`, `Declaration.tree` : what is derived, and what it
  stands for;
* `Declaration.eq_of_tokens` : a list of tokens has one derivation at most;
* `Parser.runOn_derivation`, `Parser.exists_derivation` : what is derived is read, and nothing else
  is;
* `Parser.declaration_reads_grammar` : so the reader accepts exactly the grammar.
-/

namespace TidyUse

namespace Grammar

/-! ## Derivations -/

/-- A token of one kind. -/
abbrev Mark (kind : Token.Kind) : Type := { t : Token // t.kind = kind }

abbrev Step : Type := { t : Token // t.kind.isSegment = true }

structure Rename where
  word : Mark .asWord
  name : Mark .identifier

mutual

/-- What may stand below a step. -/
inductive Nested
  | star (mark : Mark .star)
  | leaf (step : Step) (rename : Option Rename)
  | path (step : Step) (sep : Mark .pathSep) (child : Child)

/-- What follows a `::`. -/
inductive Child
  | braces (opening : Mark .openBrace) (first : Nested) (more : More) (closing : Mark .closeBrace)
  | single (nested : Nested)

/-- What follows the first tree in braces. -/
inductive More
  | done (comma : Option (Mark .comma))
  | next (comma : Mark .comma) (nested : Nested) (more : More)

end

inductive Root
  | leaf (step : Step) (rename : Option Rename)
  | path (step : Step) (sep : Mark .pathSep) (child : Child)

inductive Visibility
  | everywhere (pub : Mark .pubWord)
  | within (pub : Mark .pubWord) (opening : Mark .openParen) (word : Mark .inWord)
    (first : { t : Token // t.kind ≠ .closeParen }) (more : List { t : Token // t.kind ≠ .closeParen })
    (closing : Mark .closeParen)
  | named (pub : Mark .pubWord) (opening : Mark .openParen)
    (scope : { t : Token // t.kind ≠ .inWord }) (closing : Mark .closeParen)

structure Declaration where
  scope : Option Visibility
  word : Mark .useWord
  root : Root
  semicolon : Option (Mark .semicolon)

/-! ## Tokens -/

def maybe {α : Type} (tokens : α → List Token) : Option α → List Token
  | none => []
  | some a => tokens a

def Rename.tokens (r : Rename) : List Token := [r.word.val, r.name.val]

mutual

def Nested.tokens : Nested → List Token
  | .star mark => [mark.val]
  | .leaf step rename => step.val :: maybe Rename.tokens rename
  | .path step sep child => step.val :: sep.val :: child.tokens

def Child.tokens : Child → List Token
  | .braces opening first more closing =>
    opening.val :: (first.tokens ++ (more.tokens ++ [closing.val]))
  | .single nested => nested.tokens

def More.tokens : More → List Token
  | .done comma => maybe (fun mark => [mark.val]) comma
  | .next comma nested more => comma.val :: (nested.tokens ++ more.tokens)

end

def Root.tokens : Root → List Token
  | .leaf step rename => step.val :: maybe Rename.tokens rename
  | .path step sep child => step.val :: sep.val :: child.tokens

def Visibility.tokens : Visibility → List Token
  | .everywhere pub => [pub.val]
  | .within pub opening word first more closing =>
    pub.val :: opening.val :: word.val :: ((first :: more).map Subtype.val ++ [closing.val])
  | .named pub opening scope closing => [pub.val, opening.val, scope.val, closing.val]

def Declaration.tokens (d : Declaration) : List Token :=
  maybe Visibility.tokens d.scope ++ d.word.val ::
    (d.root.tokens ++ maybe (fun mark => [mark.val]) d.semicolon)

/-! ## Meanings -/

def Rename.text (r : Rename) : String := r.name.val.text

/-- The segment of a step, if the first token's text starts at `base`. -/
def segment (base : Position) (step : Step) (rename : Option Rename) : Segment :=
  ⟨step.val.text, rename.map Rename.text, some (Parser.spanOf base step.val)⟩

/-- The segment of a leaf below a step. There the word `self` stands for the name of the path. -/
def leafSegment (base : Position) (step : Step) (rename : Option Rename) : Segment :=
  if step.val.kind = .selfWord then { segment base step rename with name := UseTree.selfName }
  else segment base step rename

mutual

def Nested.tree (base : Position) : Nested → UseTree
  | .star mark => .glob ⟨UseTree.globName, none, some (Parser.spanOf base mark.val)⟩
  | .leaf step rename => .node (leafSegment base step rename) []
  | .path step _ child => .node (segment base step none) (child.trees base)

def Child.trees (base : Position) : Child → List UseTree
  | .braces _ first more _ => first.tree base :: more.trees base
  | .single nested => [nested.tree base]

def More.trees (base : Position) : More → List UseTree
  | .done _ => []
  | .next _ nested more => nested.tree base :: more.trees base

end

def Root.tree (base : Position) : Root → UseTree
  | .leaf step rename => .node (segment base step rename) []
  | .path step _ child => .node (segment base step none) (child.trees base)

def Visibility.text : Visibility → String
  | .everywhere _ => "pub"
  | .within _ _ _ first more _ =>
    "pub(" ++ ("in " ++ String.join ((first :: more).map fun t => t.val.text)) ++ ")"
  | .named _ _ scope _ => "pub(" ++ scope.val.text ++ ")"

def Declaration.visibility (d : Declaration) : Option String := d.scope.map Visibility.text

def Declaration.tree (base : Position) (d : Declaration) : UseTree := d.root.tree base

/-! ## One derivation at most -/

open TidyUse.Parser (Closes closes_cons)

theorem Nested.exists_head (n : Nested) :
    ∃ t ts, n.tokens = t :: ts ∧ (t.kind = .star ∨ t.kind.isSegment = true) := by
  cases n with
  | star mark => exact ⟨_, _, by rw [Nested.tokens], Or.inl mark.property⟩
  | leaf step rename => exact ⟨_, _, by rw [Nested.tokens], Or.inr step.property⟩
  | path step sep child => exact ⟨_, _, by rw [Nested.tokens], Or.inr step.property⟩

/-- A tree does not open with a brace. -/
theorem Nested.isNext_brace (n : Nested) (rest : List Token) {kind : Token.Kind}
    (hk : kind = .openBrace ∨ kind = .closeBrace) :
    ((n.tokens ++ rest).head?.any fun t => t.kind == kind) = false := by
  obtain ⟨t, ts, hn, ht⟩ := n.exists_head
  have hne : t.kind ≠ kind := by
    rintro rfl
    rcases hk with hk | hk <;> rw [hk] at ht <;> revert ht <;> decide
  rw [hn]
  simpa using hne

/-- What follows a tree in braces does not go on with it. -/
theorem More.closes (m : More) {closing : Token} (hc : closing.kind = .closeBrace)
    (rest : List Token) : Closes (m.tokens ++ closing :: rest) := by
  have hbrace : Closes (closing :: rest) :=
    closes_cons (by rw [hc]; decide) (by rw [hc]; decide) rest
  have hcomma : ∀ (mark : Mark .comma) ts, Closes (mark.val :: ts) := fun mark ts =>
    closes_cons (by rw [mark.property]; decide) (by rw [mark.property]; decide) ts
  match m with
  | .done none => rw [More.tokens]; exact hbrace
  | .done (some mark) => rw [More.tokens]; exact hcomma mark _
  | .next mark nested more => rw [More.tokens]; exact hcomma mark _

theorem step_ne_mark {kind : Token.Kind} (step : Step) (mark : Mark kind)
    (h : kind.isSegment = false) : step.val ≠ mark.val := by
  intro heq
  have hs := step.property
  rw [heq, mark.property, h] at hs
  cases hs

theorem mark_ne_mark {kind kind' : Token.Kind} (mark : Mark kind) (mark' : Mark kind')
    (h : kind ≠ kind') : mark.val ≠ mark'.val := by
  intro heq
  rw [← mark.property, ← mark'.property, heq] at h
  exact h rfl

/-- What closes a tree is no `as` and no `::`. -/
theorem ne_cons_of_closes {rest : List Token} (h : Closes rest) {kind : Token.Kind}
    (mark : Mark kind) (hk : kind = .asWord ∨ kind = .pathSep) (ts : List Token) :
    rest ≠ mark.val :: ts := by
  rintro rfl
  obtain ⟨hsep, has⟩ := h mark.val rfl
  rcases hk with rfl | rfl
  · exact has mark.property
  · exact hsep mark.property

/-- A rename, or none, is told by its tokens. -/
theorem rename_eq {r r' : Option Rename} {rest rest' : List Token}
    (h : maybe Rename.tokens r ++ rest = maybe Rename.tokens r' ++ rest')
    (hrest : Closes rest) (hrest' : Closes rest') : r = r' ∧ rest = rest' := by
  cases r with
  | none =>
    cases r' with
    | none => exact ⟨rfl, h⟩
    | some r' => exact absurd h (ne_cons_of_closes hrest r'.word (Or.inl rfl) _)
  | some r =>
    cases r' with
    | none => exact absurd h.symm (ne_cons_of_closes hrest' r.word (Or.inl rfl) _)
    | some r' =>
      obtain ⟨hword, htail⟩ := List.cons.inj h
      obtain ⟨hname, hout⟩ := List.cons.inj htail
      refine ⟨congrArg some ?_, hout⟩
      cases r
      cases r'
      exact congrArg₂ Rename.mk (Subtype.ext hword) (Subtype.ext hname)

/-- No rename stands where a path goes on. -/
theorem rename_ne_path {r : Option Rename} {rest ts : List Token} (sep : Mark .pathSep)
    (hrest : Closes rest) : maybe Rename.tokens r ++ rest ≠ sep.val :: ts := by
  cases r with
  | none => exact ne_cons_of_closes hrest sep (Or.inr rfl) ts
  | some r =>
    intro h
    exact mark_ne_mark r.word sep (by decide) (List.cons.inj h).1

mutual

/-- A tree is told by its tokens, if what follows does not go on with it. -/
theorem Nested.eq_of_tokens (n n' : Nested) {rest rest' : List Token}
    (h : n.tokens ++ rest = n'.tokens ++ rest') (hrest : Closes rest) (hrest' : Closes rest') :
    n = n' ∧ rest = rest' := by
  match n, n' with
  | .star mark, .star mark' =>
    rw [Nested.tokens, Nested.tokens] at h
    obtain ⟨hmark, hout⟩ := List.cons.inj h
    exact ⟨congrArg Nested.star (Subtype.ext hmark), hout⟩
  | .star mark, .leaf step _ =>
    rw [Nested.tokens, Nested.tokens] at h
    exact absurd (List.cons.inj h).1.symm (step_ne_mark step mark rfl)
  | .star mark, .path step _ _ =>
    rw [Nested.tokens, Nested.tokens] at h
    exact absurd (List.cons.inj h).1.symm (step_ne_mark step mark rfl)
  | .leaf step _, .star mark =>
    rw [Nested.tokens, Nested.tokens] at h
    exact absurd (List.cons.inj h).1 (step_ne_mark step mark rfl)
  | .path step _ _, .star mark =>
    rw [Nested.tokens, Nested.tokens] at h
    exact absurd (List.cons.inj h).1 (step_ne_mark step mark rfl)
  | .leaf step r, .leaf step' r' =>
    rw [Nested.tokens, Nested.tokens] at h
    obtain ⟨hstep, htail⟩ := List.cons.inj h
    obtain ⟨hr, hout⟩ := rename_eq htail hrest hrest'
    exact ⟨congrArg₂ Nested.leaf (Subtype.ext hstep) hr, hout⟩
  | .leaf _ _, .path _ sep _ =>
    rw [Nested.tokens, Nested.tokens] at h
    exact absurd (List.cons.inj h).2 (rename_ne_path sep hrest)
  | .path _ sep _, .leaf _ _ =>
    rw [Nested.tokens, Nested.tokens] at h
    exact absurd (List.cons.inj h).2.symm (rename_ne_path sep hrest')
  | .path step sep child, .path step' sep' child' =>
    rw [Nested.tokens, Nested.tokens] at h
    obtain ⟨hstep, htail⟩ := List.cons.inj h
    obtain ⟨hsep, hbelow⟩ := List.cons.inj htail
    obtain ⟨hchild, hout⟩ := Child.eq_of_tokens child child' hbelow hrest hrest'
    rw [Subtype.ext hstep, Subtype.ext hsep, hchild]
    exact ⟨rfl, hout⟩

theorem Child.eq_of_tokens (c c' : Child) {rest rest' : List Token}
    (h : c.tokens ++ rest = c'.tokens ++ rest') (hrest : Closes rest) (hrest' : Closes rest') :
    c = c' ∧ rest = rest' := by
  match c, c' with
  | .single n, .single n' =>
    rw [Child.tokens, Child.tokens] at h
    obtain ⟨hn, hout⟩ := Nested.eq_of_tokens n n' h hrest hrest'
    exact ⟨congrArg Child.single hn, hout⟩
  | .single n, .braces opening _ _ _ =>
    rw [Child.tokens, Child.tokens] at h
    have hbrace := n.isNext_brace rest (Or.inl rfl)
    rw [h] at hbrace
    simp [opening.property] at hbrace
  | .braces opening _ _ _, .single n =>
    rw [Child.tokens, Child.tokens] at h
    have hbrace := n.isNext_brace rest' (Or.inl rfl)
    rw [← h] at hbrace
    simp [opening.property] at hbrace
  | .braces opening first more closing, .braces opening' first' more' closing' =>
    simp only [Child.tokens, List.cons_append, List.append_assoc, List.nil_append] at h
    obtain ⟨hopening, htail⟩ := List.cons.inj h
    obtain ⟨hfirst, hbelow⟩ := Nested.eq_of_tokens first first' htail
      (more.closes closing.property rest) (more'.closes closing'.property rest')
    obtain ⟨hmore, hclosing, hout⟩ := More.eq_of_tokens more more' hbelow
    rw [Subtype.ext hopening, hfirst, hmore, hclosing]
    exact ⟨rfl, hout⟩

theorem More.eq_of_tokens (m m' : More) {closing closing' : Mark .closeBrace}
    {rest rest' : List Token}
    (h : m.tokens ++ closing.val :: rest = m'.tokens ++ closing'.val :: rest') :
    m = m' ∧ closing = closing' ∧ rest = rest' := by
  match m, m' with
  | .done none, .done none =>
    rw [More.tokens] at h
    obtain ⟨hclosing, hout⟩ := List.cons.inj h
    exact ⟨rfl, Subtype.ext hclosing, hout⟩
  | .done (some comma), .done (some comma') =>
    rw [More.tokens, More.tokens] at h
    obtain ⟨hcomma, htail⟩ := List.cons.inj h
    obtain ⟨hclosing, hout⟩ := List.cons.inj htail
    exact ⟨congrArg (fun mark => More.done (some mark)) (Subtype.ext hcomma),
      Subtype.ext hclosing, hout⟩
  | .done none, .done (some comma) =>
    rw [More.tokens, More.tokens] at h
    exact absurd (List.cons.inj h).1 (mark_ne_mark closing comma (by decide))
  | .done (some comma), .done none =>
    rw [More.tokens, More.tokens] at h
    exact absurd (List.cons.inj h).1.symm (mark_ne_mark closing' comma (by decide))
  | .done none, .next comma _ _ =>
    rw [More.tokens, More.tokens] at h
    exact absurd (List.cons.inj h).1 (mark_ne_mark closing comma (by decide))
  | .next comma _ _, .done none =>
    rw [More.tokens, More.tokens] at h
    exact absurd (List.cons.inj h).1.symm (mark_ne_mark closing' comma (by decide))
  | .done (some _), .next _ n more =>
    simp only [More.tokens, maybe, List.cons_append, List.append_assoc, List.nil_append] at h
    have hbrace := n.isNext_brace (more.tokens ++ closing'.val :: rest') (Or.inr rfl)
    rw [← (List.cons.inj h).2] at hbrace
    simp [closing.property] at hbrace
  | .next _ n more, .done (some _) =>
    simp only [More.tokens, maybe, List.cons_append, List.append_assoc, List.nil_append] at h
    have hbrace := n.isNext_brace (more.tokens ++ closing.val :: rest) (Or.inr rfl)
    rw [(List.cons.inj h).2] at hbrace
    simp [closing'.property] at hbrace
  | .next comma n more, .next comma' n' more' =>
    simp only [More.tokens, List.cons_append, List.append_assoc] at h
    obtain ⟨hcomma, htail⟩ := List.cons.inj h
    obtain ⟨hn, hbelow⟩ := Nested.eq_of_tokens n n' htail (more.closes closing.property rest)
      (more'.closes closing'.property rest')
    obtain ⟨hmore, hclosing, hout⟩ := More.eq_of_tokens more more' hbelow
    rw [Subtype.ext hcomma, hn, hmore]
    exact ⟨rfl, hclosing, hout⟩

end

/-- The tree of a declaration as one below a step. -/
def Root.nested : Root → Nested
  | .leaf step rename => .leaf step rename
  | .path step sep child => .path step sep child

theorem Root.tokens_nested (r : Root) : r.nested.tokens = r.tokens := by
  cases r with
  | leaf step rename => rw [Root.nested, Nested.tokens, Root.tokens]
  | path step sep child => rw [Root.nested, Nested.tokens, Root.tokens]

theorem Root.nested_injective {r r' : Root} (h : r.nested = r'.nested) : r = r' := by
  cases r <;> cases r' <;> cases h <;> rfl

theorem Root.eq_of_tokens {r r' : Root} {rest rest' : List Token}
    (h : r.tokens ++ rest = r'.tokens ++ rest') (hrest : Closes rest) (hrest' : Closes rest') :
    r = r' ∧ rest = rest' := by
  rw [← r.tokens_nested, ← r'.tokens_nested] at h
  obtain ⟨hnested, hout⟩ := r.nested.eq_of_tokens r'.nested h hrest hrest'
  exact ⟨Root.nested_injective hnested, hout⟩

/-- The tokens up to a closing parenthesis are told by all of them. -/
theorem restriction_eq {path path' : List { t : Token // t.kind ≠ .closeParen }}
    {closing closing' : Mark .closeParen} {rest rest' : List Token}
    (h : path.map Subtype.val ++ closing.val :: rest =
      path'.map Subtype.val ++ closing'.val :: rest') :
    path = path' ∧ closing = closing' ∧ rest = rest' := by
  induction path generalizing path' with
  | nil =>
    cases path' with
    | nil =>
      obtain ⟨hclosing, hout⟩ := List.cons.inj h
      exact ⟨rfl, Subtype.ext hclosing, hout⟩
    | cons t path' =>
      have heq : closing.val = t.val := (List.cons.inj h).1
      exact absurd (heq ▸ closing.property) t.property
  | cons t path ih =>
    cases path' with
    | nil =>
      have heq : t.val = closing'.val := (List.cons.inj h).1
      exact absurd (heq ▸ closing'.property) t.property
    | cons t' path' =>
      obtain ⟨ht, htail⟩ := List.cons.inj h
      obtain ⟨hpath, hclosing, hout⟩ := ih htail
      exact ⟨congrArg₂ List.cons (Subtype.ext ht) hpath, hclosing, hout⟩

/-- A visibility is told by its tokens, before the word `use`. -/
theorem Visibility.eq_of_tokens {v v' : Visibility} {word word' : Mark .useWord}
    {rest rest' : List Token}
    (h : v.tokens ++ word.val :: rest = v'.tokens ++ word'.val :: rest') :
    v = v' ∧ word = word' ∧ rest = rest' := by
  cases v with
  | everywhere pub =>
    cases v' with
    | everywhere pub' =>
      obtain ⟨hpub, htail⟩ := List.cons.inj h
      obtain ⟨hword, hout⟩ := List.cons.inj htail
      exact ⟨congrArg Visibility.everywhere (Subtype.ext hpub), Subtype.ext hword, hout⟩
    | within pub' opening' _ _ _ _ =>
      exact absurd (List.cons.inj (List.cons.inj h).2).1 (mark_ne_mark word opening' (by decide))
    | named pub' opening' _ _ =>
      exact absurd (List.cons.inj (List.cons.inj h).2).1 (mark_ne_mark word opening' (by decide))
  | within pub opening inside first more closing =>
    cases v' with
    | everywhere pub' =>
      exact absurd (List.cons.inj (List.cons.inj h).2).1 (mark_ne_mark opening word' (by decide))
    | within pub' opening' inside' first' more' closing' =>
      simp only [Visibility.tokens, List.cons_append, List.append_assoc, List.nil_append] at h
      obtain ⟨hpub, h₁⟩ := List.cons.inj h
      obtain ⟨hopening, h₂⟩ := List.cons.inj h₁
      obtain ⟨hinside, h₃⟩ := List.cons.inj h₂
      obtain ⟨hpath, hclosing, h₄⟩ := restriction_eq h₃
      obtain ⟨hfirst, hmore⟩ := List.cons.inj hpath
      obtain ⟨hword, hout⟩ := List.cons.inj h₄
      rw [Subtype.ext hpub, Subtype.ext hopening, Subtype.ext hinside, hfirst, hmore, hclosing]
      exact ⟨rfl, Subtype.ext hword, hout⟩
    | named pub' opening' scope' closing' =>
      have heq : inside.val = scope'.val :=
        (List.cons.inj (List.cons.inj (List.cons.inj h).2).2).1
      exact absurd (heq ▸ inside.property) scope'.property
  | named pub opening scope closing =>
    cases v' with
    | everywhere pub' =>
      exact absurd (List.cons.inj (List.cons.inj h).2).1 (mark_ne_mark opening word' (by decide))
    | within pub' opening' inside' _ _ _ =>
      have heq : scope.val = inside'.val :=
        (List.cons.inj (List.cons.inj (List.cons.inj h).2).2).1
      exact absurd (heq ▸ inside'.property) scope.property
    | named pub' opening' scope' closing' =>
      obtain ⟨hpub, h₁⟩ := List.cons.inj h
      obtain ⟨hopening, h₂⟩ := List.cons.inj h₁
      obtain ⟨hscope, h₃⟩ := List.cons.inj h₂
      obtain ⟨hclosing, h₄⟩ := List.cons.inj h₃
      obtain ⟨hword, hout⟩ := List.cons.inj h₄
      rw [Subtype.ext hpub, Subtype.ext hopening, Subtype.ext hscope, Subtype.ext hclosing]
      exact ⟨rfl, Subtype.ext hword, hout⟩

theorem closes_semicolon (semicolon : Option (Mark .semicolon)) :
    Closes (maybe (fun mark => [mark.val]) semicolon) := by
  cases semicolon with
  | none =>
    intro t ht
    cases ht
  | some mark => exact closes_cons (by rw [mark.property]; decide) (by rw [mark.property]; decide) []

/-- A list of tokens has one derivation at most. -/
theorem Declaration.eq_of_tokens {d d' : Declaration} (h : d.tokens = d'.tokens) : d = d' := by
  obtain ⟨scope, word, root, semicolon⟩ := d
  obtain ⟨scope', word', root', semicolon'⟩ := d'
  have hscope : scope = scope' ∧ word = word' ∧
      root.tokens ++ maybe (fun mark => [mark.val]) semicolon =
        root'.tokens ++ maybe (fun mark => [mark.val]) semicolon' := by
    cases scope with
    | none =>
      cases scope' with
      | none =>
        obtain ⟨hword, htail⟩ := List.cons.inj h
        exact ⟨rfl, Subtype.ext hword, htail⟩
      | some v' =>
        cases v' <;>
          exact absurd (List.cons.inj h).1 (mark_ne_mark word _ (by decide))
    | some v =>
      cases scope' with
      | none =>
        cases v <;>
          exact absurd (List.cons.inj h).1.symm (mark_ne_mark word' _ (by decide))
      | some v' =>
        obtain ⟨hv, hword, htail⟩ := Visibility.eq_of_tokens h
        exact ⟨congrArg some hv, hword, htail⟩
  obtain ⟨rfl, rfl, htail⟩ := hscope
  obtain ⟨rfl, hend⟩ := Root.eq_of_tokens htail (closes_semicolon _) (closes_semicolon _)
  have hsemicolon : semicolon = semicolon' := by
    cases semicolon with
    | none =>
      cases semicolon' with
      | none => rfl
      | some mark' => cases hend
    | some mark =>
      cases semicolon' with
      | none => cases hend
      | some mark' => exact congrArg some (Subtype.ext (List.cons.inj hend).1)
  rw [hsemicolon]

end Grammar

/-! ## What is derived is read -/

namespace Parser

open Grammar (Mark Nested More Child Root Visibility maybe)

theorem runOn_derived_rename (r : Option Grammar.Rename) {rest : List Token}
    (h : (rest.head?.any fun t => t.kind == .asWord) = false) :
    rename.runOn (maybe Grammar.Rename.tokens r ++ rest) =
      (.ok (r.map Grammar.Rename.text), rest) := by
  cases r with
  | none =>
    simp only [maybe, List.nil_append, rename, runOn_bind, runOn_isNext, h, Bool.false_eq_true,
      if_false, runOn_pure, Option.map_none]
  | some r =>
    simp only [maybe, Grammar.Rename.tokens, List.cons_append, List.nil_append, rename, runOn_bind,
      runOn_isNext, runOn_advance_cons, runOn_expect_cons, List.head?_cons, Option.any_some,
      r.word.property, r.name.property, beq_self_eq_true, if_true, runOn_pure, Option.map_some,
      Grammar.Rename.text]

theorem runOn_derived_segment (base : Position) (step : Grammar.Step)
    (r : Option Grammar.Rename) {rest : List Token}
    (h : (rest.head?.any fun t => t.kind == .asWord) = false) :
    (segment base).runOn (step.val :: (maybe Grammar.Rename.tokens r ++ rest)) =
      (.ok (Grammar.segment base step r), rest) := by
  simp only [segment, runOn_bind, runOn_advance_cons, step.property, if_true,
    runOn_derived_rename r h, runOn_pure, Grammar.segment]

theorem isNext_pathSep_rename (r : Option Grammar.Rename) {rest : List Token} (h : Closes rest) :
    ((maybe Grammar.Rename.tokens r ++ rest).head?.any fun t => t.kind == .pathSep) = false := by
  cases r with
  | none => exact h.isNext (Or.inl rfl)
  | some r =>
    have hword : (r.word.val.kind == .pathSep) = false := by rw [r.word.property]; rfl
    simpa [maybe, Grammar.Rename.tokens] using hword

theorem step_ne_star (step : Grammar.Step) : (step.val.kind == .star) = false := by
  rw [beq_eq_false_iff_ne]
  intro hstar
  have hs := step.property
  rw [hstar] at hs
  cases hs

theorem runOn_treeListWithin_single {base : Position} {n : Nat} {ts rest : List Token} {c : UseTree}
    (hts : (ts.head?.any fun u => u.kind == .closeBrace) = false)
    (hc : (treeWithin base n true).runOn ts = (.ok c, rest))
    (hrest : (rest.head?.any fun u => u.kind == .comma) = false) :
    (treeListWithin base (n + 1)).runOn ts = (.ok [c], rest) := by
  simp only [treeListWithin, runOn_bind, runOn_isNext, runOn_pure, hts, hc, hrest,
    Bool.false_eq_true, if_false]

/-- With some depth, the trees of derivations with fewer tokens are read. -/
structure ReadsWithin (base : Position) (n : Nat) : Prop where
  tree : ∀ (d : Nested) (rest : List Token), Closes rest → d.tokens.length < n →
    (treeWithin base n true).runOn (d.tokens ++ rest) = (.ok (d.tree base), rest)
  list : ∀ (first : Nested) (more : More) (closing : Mark .closeBrace) (rest : List Token),
    first.tokens.length + more.tokens.length + 1 < n →
    (treeListWithin base n).runOn (first.tokens ++ (more.tokens ++ closing.val :: rest)) =
      (.ok (first.tree base :: more.trees base), closing.val :: rest)

/-- A path is read if what stands below its first step is. -/
theorem ReadsWithin.path {base : Position} {n : Nat} (h : ReadsWithin base n) (nested : Bool)
    (step : Grammar.Step) (sep : Mark .pathSep) (child : Child) {rest : List Token}
    (hrest : Closes rest) (hn : child.tokens.length < n) :
    (treeWithin base (n + 1) nested).runOn (step.val :: sep.val :: (child.tokens ++ rest)) =
      (.ok (.node (Grammar.segment base step none) (child.trees base)), rest) := by
  have hsep : (sep.val.kind == .pathSep) = true := by rw [sep.property]; rfl
  have has : ∀ below : List Token,
      ((sep.val :: below).head?.any fun t => t.kind == .asWord) = false := by
    intro below
    show (sep.val.kind == .asWord) = false
    rw [sep.property]
    rfl
  have hstart : ∀ below, StartsStep nested step.val (sep.val :: below) := by
    intro below
    refine ⟨step_ne_star step, ?_⟩
    rw [List.head?_cons, Option.any_some, hsep, Bool.not_true, Bool.and_false, Bool.and_false]
  cases child with
  | single d =>
    rw [Child.tokens] at hn ⊢
    rw [Child.trees]
    exact runOn_treeWithin_path (hstart _) (runOn_derived_segment base step none (has _)) sep.property
      (d.isNext_brace rest (Or.inl rfl)) rfl (h.tree d rest hrest hn)
  | braces opening first more closing =>
    simp only [Child.tokens, List.length_cons, List.length_append, List.length_nil] at hn
    simp only [Child.tokens, List.cons_append, List.append_assoc, List.nil_append]
    rw [Child.trees]
    exact runOn_treeWithin_braces (hstart _) (runOn_derived_segment base step none (has _))
      sep.property opening.property rfl (h.list first more closing rest (by omega)) closing.property

/-- A leaf below a step is read. -/
theorem runOn_derived_leaf (base : Position) (n : Nat) (step : Grammar.Step)
    (r : Option Grammar.Rename) {rest : List Token} (hrest : Closes rest) :
    (treeWithin base (n + 1) true).runOn
        (step.val :: (maybe Grammar.Rename.tokens r ++ rest)) =
      (.ok (.node (Grammar.leafSegment base step r) []), rest) := by
  by_cases hself : step.val.kind = .selfWord
  · rw [runOn_treeWithin_self base n hself (isNext_pathSep_rename r hrest), Grammar.leafSegment,
      if_pos hself]
    simp only [selfLeaf, runOn_bind, runOn_advance_cons,
      runOn_derived_rename r (hrest.isNext (Or.inr rfl)), runOn_pure, Grammar.segment]
  · have hne : (step.val.kind == .selfWord) = false := beq_eq_false_iff_ne.2 hself
    rw [Grammar.leafSegment, if_neg hself]
    refine runOn_treeWithin_leaf ⟨step_ne_star step, ?_⟩
      (runOn_derived_segment base step r (hrest.isNext (Or.inr rfl))) (hrest.isNext (Or.inl rfl))
    rw [hne, Bool.false_and, Bool.and_false]

theorem readsWithin (base : Position) (n : Nat) : ReadsWithin base n := by
  induction n with
  | zero => exact ⟨fun _ _ _ hn => absurd hn (Nat.not_lt_zero _),
      fun _ _ _ _ hn => absurd hn (Nat.not_lt_zero _)⟩
  | succ n ih =>
    refine ⟨fun d rest hrest hn => ?_, fun first more closing rest hn => ?_⟩
    · cases d with
      | star mark =>
        rw [Nested.tokens, Nested.tree]
        exact runOn_treeWithin_glob base n mark.property
      | leaf step r =>
        rw [Nested.tokens, Nested.tree]
        exact runOn_derived_leaf base n step r hrest
      | path step sep child =>
        simp only [Nested.tokens, List.length_cons] at hn
        rw [Nested.tokens, Nested.tree]
        exact ih.path true step sep child hrest (by omega)
    · have hfirst := ih.tree first _ (more.closes closing.property rest) (by omega)
      have hbrace := first.isNext_brace (more.tokens ++ closing.val :: rest) (Or.inr rfl)
      match more with
      | .done none =>
        rw [More.trees]
        refine runOn_treeListWithin_single hbrace hfirst ?_
        show (closing.val.kind == .comma) = false
        rw [closing.property]
        rfl
      | .done (some comma) =>
        rw [More.trees]
        refine runOn_treeListWithin_last hbrace hfirst comma.property ?_
        show (closing.val.kind == .closeBrace) = true
        rw [closing.property]
        rfl
      | .next comma d more =>
        simp only [More.tokens, List.length_cons, List.length_append] at hn
        simp only [More.tokens, List.cons_append, List.append_assoc] at hfirst hbrace ⊢
        rw [More.trees]
        exact runOn_treeListWithin_more hbrace hfirst comma.property
          (d.isNext_brace _ (Or.inr rfl)) (ih.list d more closing rest (by omega))

theorem runOn_derived_root (base : Position) (r : Root) {rest : List Token} (hrest : Closes rest) :
    (tree base false).runOn (r.tokens ++ rest) = (.ok (r.tree base), rest) := by
  rw [tree, runOn_bind_of_ok (runOn_depth _)]
  cases r with
  | leaf step rename =>
    rw [Root.tokens, Root.tree]
    refine runOn_treeWithin_leaf ⟨step_ne_star step, Bool.false_and _⟩
      (runOn_derived_segment base step rename (hrest.isNext (Or.inr rfl)))
      (hrest.isNext (Or.inl rfl))
  | path step sep child =>
    rw [Root.tokens, Root.tree]
    refine (readsWithin base _).path false step sep child hrest ?_
    simp only [List.cons_append, List.length_cons, List.length_append]
    omega

theorem runOn_derived_visibility (v : Option Visibility) (word : Mark .useWord)
    (rest : List Token) :
    visibility.runOn (maybe Visibility.tokens v ++ word.val :: rest) =
      (.ok (v.map Visibility.text), word.val :: rest) := by
  have hpub : (word.val.kind == .pubWord) = false := by rw [word.property]; rfl
  have hparen : (word.val.kind == .openParen) = false := by rw [word.property]; rfl
  match v with
  | none =>
    simp only [maybe, List.nil_append, visibility, runOn_bind, runOn_isNext, List.head?_cons,
      Option.any_some, hpub, Bool.false_eq_true, if_false, runOn_pure, Option.map_none]
  | some (.everywhere pub) =>
    simp only [maybe, Visibility.tokens, List.cons_append, List.nil_append, visibility,
      runOn_bind, runOn_isNext, runOn_advance_cons, List.head?_cons, Option.any_some, pub.property,
      hparen, beq_self_eq_true, Bool.false_eq_true, if_true, if_false, runOn_pure, Option.map_some,
      Visibility.text]
  | some (.within pub opening inside first more closing) =>
    have hpath : ∀ t ∈ (first :: more).map Subtype.val, (t.kind != .closeParen) = true := by
      intro t ht
      obtain ⟨u, -, rfl⟩ := List.mem_map.1 ht
      exact bne_iff_ne.2 u.property
    simp only [maybe, Visibility.tokens, List.cons_append, List.append_assoc, List.nil_append,
      Option.map_some, Visibility.text]
    rw [runOn_visibility_path pub.property opening.property inside.property (by simp) hpath
      closing.property, List.map_map]
    rfl
  | some (.named pub opening scope closing) =>
    exact runOn_visibility_word pub.property opening.property
      (beq_eq_false_iff_ne.2 scope.property) closing.property

theorem runOn_declaration_open {base : Position} {v : Option String} {t : UseTree} {use : Token}
    {ts rest : List Token} (hv : visibility.runOn ts = (.ok v, use :: rest))
    (huse : use.kind = .useWord) (ht : (tree base false).runOn rest = (.ok t, [])) :
    (declaration base).runOn ts = (.ok (v, t), []) := by
  simp only [declaration, current, runOn_bind, runOn_isNext, runOn_peek, runOn_expect_cons,
    runOn_pure, hv, huse, ht, List.head?_nil, Option.any_none, Bool.false_eq_true, if_true, if_false,
    List.getElem?_nil]

/-- What is derived is read. -/
theorem runOn_derivation (base : Position) (d : Grammar.Declaration) :
    (declaration base).runOn d.tokens = (.ok (d.visibility, d.tree base), []) := by
  have hvisibility := runOn_derived_visibility d.scope d.word
    (d.root.tokens ++ maybe (fun mark => [mark.val]) d.semicolon)
  have hroot := runOn_derived_root base d.root (Grammar.closes_semicolon d.semicolon)
  cases hsemicolon : d.semicolon with
  | none =>
    rw [hsemicolon] at hvisibility hroot
    rw [Grammar.Declaration.tokens, hsemicolon]
    exact runOn_declaration_open hvisibility d.word.property hroot
  | some mark =>
    rw [hsemicolon] at hvisibility hroot
    rw [Grammar.Declaration.tokens, hsemicolon]
    exact runOn_declaration hvisibility d.word.property hroot mark.property

/-! ## What is read is derived -/

variable {ts : List Token}

theorem reads_derived_rename : Reads rename ts fun r rest =>
    ∃ d : Option Grammar.Rename, ts = maybe Grammar.Rename.tokens d ++ rest ∧
      r = d.map Grammar.Rename.text := by
  refine .bind (.isNext (.ite (fun has => ?_) fun _ => .pure ⟨none, rfl, rfl⟩))
  refine .bind (.advance fun t rest hts => .bind (.expect fun u rest' hrest hu => .pure ?_))
  rw [hts, List.head?_cons, Option.any_some, beq_iff_eq] at has
  exact ⟨some ⟨⟨t, has⟩, ⟨u, hu⟩⟩, by rw [hts, hrest]; rfl, rfl⟩

theorem reads_derived_segment (base : Position) : Reads (segment base) ts fun s rest =>
    ∃ (step : Grammar.Step) (d : Option Grammar.Rename),
      ts = step.val :: (maybe Grammar.Rename.tokens d ++ rest) ∧
        s.rename = d.map Grammar.Rename.text := by
  refine .bind (.advance fun t rest hts => .ite (fun hstep => ?_) fun _ => .throw_bind _ _)
  refine .bind (reads_derived_rename.imp fun r rest' hr => .pure ?_)
  obtain ⟨d, rfl, rfl⟩ := hr
  exact ⟨⟨t, hstep⟩, d, hts, rfl⟩

/-- The trees that are read are derived. A `*` is read below a step only. -/
def DerivesTree (base : Position) (n : Nat) : Prop :=
  ∀ nested ts, Reads (treeWithin base n nested) ts fun _ rest =>
    ∃ d : Nested, ts = d.tokens ++ rest ∧ (nested = false → ∃ r : Root, d = r.nested)

/-- The same for trees between commas. -/
def DerivesList (base : Position) (n : Nat) : Prop :=
  ∀ ts, Reads (treeListWithin base n) ts fun _ rest =>
    ∃ (first : Nested) (more : More), ts = first.tokens ++ (more.tokens ++ rest)

theorem DerivesTree.succ {base : Position} {n : Nat} (htree : DerivesTree base n)
    (hlist : DerivesList base n) : DerivesTree base (n + 1) := by
  intro nested ts
  rw [treeWithin]
  refine .bind (.peek (.ite (fun _ => .throw_bind _ _) fun _ => .bind (.isNext ?_)))
  refine .ite (fun hstar => .ite (fun hnested => ?_) fun _ => .throw _) fun _ => ?_
  · refine .bind (.advance fun t rest hts => .pure ?_)
    rw [hts, List.head?_cons, Option.any_some, beq_iff_eq] at hstar
    refine ⟨.star ⟨t, hstar⟩, by rw [Nested.tokens, hts]; rfl, fun h => ?_⟩
    rw [hnested] at h
    cases h
  refine .bind (.bind (.peek (.bind (.isNext (.pure ?_)))))
  refine .ite (fun hself => ?_) fun _ => ?_
  · simp only [Bool.and_eq_true] at hself
    refine .bind (.advance fun t rest hts =>
      .bind (reads_derived_rename.imp fun r rest' hr => .pure ?_))
    obtain ⟨d, hrest, -⟩ := hr
    have hkind := hself.2.1
    rw [hts, List.head?_cons, Option.any_some, beq_iff_eq] at hkind
    refine ⟨.leaf ⟨t, by rw [hkind]; rfl⟩ d, ?_, fun h => ⟨.leaf _ _, rfl⟩⟩
    rw [Nested.tokens, hts, hrest]
    rfl
  refine .bind ((reads_derived_segment base).imp fun s rest hs => .bind (.isNext ?_))
  obtain ⟨step, d, hts, hrename⟩ := hs
  refine .ite (fun hsep => ?_) fun _ => .pure ⟨.leaf step d, ?_, fun _ => ⟨.leaf step d, rfl⟩⟩
  · refine .bind (.advance fun sep rest₁ hrest => ?_)
    rw [hrest, List.head?_cons, Option.any_some, beq_iff_eq] at hsep
    cases d with
    | some d =>
      rw [hrename]
      exact .throw_bind _ _
    | none =>
      rw [hrename]
      have hpath : ∀ (child : Child) rest', rest₁ = child.tokens ++ rest' →
          ∃ d : Nested, ts = d.tokens ++ rest' ∧ (nested = false → ∃ r : Root, d = r.nested) :=
        fun child rest' h => ⟨.path step ⟨sep, hsep⟩ child, by
          rw [Nested.tokens, hts, hrest, h]; rfl, fun _ => ⟨.path step ⟨sep, hsep⟩ child, rfl⟩⟩
      refine .bind (.isNext (.ite (fun hbrace => ?_) fun _ => ?_))
      · refine .bind (.advance fun opening rest₂ hopening => ?_)
        rw [hopening, List.head?_cons, Option.any_some, beq_iff_eq] at hbrace
        refine .bind ((hlist rest₂).imp fun cs rest₃ hcs =>
          .bind (.expect fun closing rest₄ hclosing hkind => .pure ?_))
        obtain ⟨first, more, hmore⟩ := hcs
        refine hpath (.braces ⟨opening, hbrace⟩ first more ⟨closing, hkind⟩) rest₄ ?_
        rw [hopening, hmore, hclosing, Child.tokens]
        simp only [List.cons_append, List.append_assoc, List.nil_append]
      · refine .bind ((htree true rest₁).imp fun c rest₂ hc => .pure ?_)
        obtain ⟨d, hd, -⟩ := hc
        exact hpath (.single d) rest₂ (by rw [Child.tokens, hd])
  · rw [Nested.tokens, hts]
    rfl

theorem DerivesList.succ {base : Position} {n : Nat} (htree : DerivesTree base n)
    (hlist : DerivesList base n) : DerivesList base (n + 1) := by
  intro ts
  rw [treeListWithin]
  refine .bind (.isNext (.ite (fun _ => .throw_bind _ _) fun _ => ?_))
  refine .bind ((htree true ts).imp fun c rest hc => .bind (.isNext ?_))
  obtain ⟨first, hts, -⟩ := hc
  refine .ite (fun hcomma => ?_) fun _ => .pure ⟨first, .done none, ?_⟩
  · refine .bind (.advance fun comma rest₁ hrest => .bind (.isNext ?_))
    rw [hrest, List.head?_cons, Option.any_some, beq_iff_eq] at hcomma
    refine .ite (fun _ => .pure ⟨first, .done (some ⟨comma, hcomma⟩), ?_⟩) fun _ => ?_
    · rw [More.tokens, hts, hrest]
      rfl
    · refine .bind ((hlist rest₁).imp fun cs rest₂ hcs => .pure ?_)
      obtain ⟨d, more, hmore⟩ := hcs
      refine ⟨first, .next ⟨comma, hcomma⟩ d more, ?_⟩
      rw [More.tokens, hts, hrest, hmore, List.cons_append, List.append_assoc]
  · rw [More.tokens, hts]
    rfl

theorem reads_derived_trees (base : Position) (n : Nat) :
    DerivesTree base n ∧ DerivesList base n := by
  induction n with
  | zero =>
    refine ⟨fun nested ts => ?_, fun ts => ?_⟩
    · rw [treeWithin]
      exact .throw _
    · rw [treeListWithin]
      exact .throw _
  | succ n ih => exact ⟨ih.1.succ ih.2, DerivesList.succ ih.1 ih.2⟩

theorem reads_derived_root (base : Position) :
    Reads (tree base false) ts fun _ rest => ∃ r : Root, ts = r.tokens ++ rest := by
  refine .bind fun n rest hrun => ?_
  cases hrun
  refine ((reads_derived_trees base _).1 false ts).imp fun t rest' hd => ?_
  obtain ⟨d, hts, hroot⟩ := hd
  obtain ⟨r, rfl⟩ := hroot rfl
  exact ⟨r, by rw [hts, r.tokens_nested]⟩

theorem reads_derived_restriction : Reads restriction ts fun parts rest =>
    ∃ path : List { t : Token // t.kind ≠ .closeParen }, ts = path.map Subtype.val ++ rest ∧
      parts.length = path.length := by
  intro parts rest hrun
  rw [runOn_restriction] at hrun
  dsimp only at hrun
  split at hrun
  · cases hrun
  · cases hrun
    have hpath : ∀ t ∈ ts.takeWhile (fun t => t.kind != .closeParen), t.kind ≠ .closeParen :=
      fun t ht => bne_iff_ne.1 (List.all_eq_true.1 List.all_takeWhile t ht)
    refine ⟨(ts.takeWhile fun t => t.kind != .closeParen).attachWith _ hpath, ?_, ?_⟩
    · rw [List.attachWith_map_subtype_val]
      exact List.takeWhile_append_dropWhile.symm
    · rw [List.length_map, List.length_attachWith]

theorem reads_derived_visibility : Reads visibility ts fun _ rest =>
    ∃ v : Option Visibility, ts = maybe Visibility.tokens v ++ rest := by
  simp only [visibility, pure_bind]
  refine .bind (.isNext (.ite (fun hpub => ?_) fun _ => .pure ⟨none, rfl⟩))
  refine .bind (.advance fun pub rest₁ hts => .bind (.isNext ?_))
  rw [hts, List.head?_cons, Option.any_some, beq_iff_eq] at hpub
  refine .ite (fun hparen => ?_) fun _ => .pure ⟨some (.everywhere ⟨pub, hpub⟩), hts⟩
  refine .bind (.advance fun paren rest₂ h₁ => .bind (.isNext ?_))
  rw [h₁, List.head?_cons, Option.any_some, beq_iff_eq] at hparen
  refine .ite (fun hin => ?_) fun hin => ?_
  · refine .bind (.advance fun word rest₃ h₂ => ?_)
    rw [h₂, List.head?_cons, Option.any_some, beq_iff_eq] at hin
    refine .bind (reads_derived_restriction.imp fun parts rest₄ hparts => ?_)
    obtain ⟨path, h₃, hlength⟩ := hparts
    refine .ite (fun _ => .throw_bind _ _) fun hsome => ?_
    refine .bind (.expect fun closing rest₅ h₄ hclosing => .pure ?_)
    cases path with
    | nil =>
      rw [List.length_nil, List.length_eq_zero_iff] at hlength
      exact absurd (by rw [hlength]; rfl) hsome
    | cons first more =>
      refine ⟨some (.within ⟨pub, hpub⟩ ⟨paren, hparen⟩ ⟨word, hin⟩ first more
        ⟨closing, hclosing⟩), ?_⟩
      rw [hts, h₁, h₂, h₃, h₄]
      simp only [maybe, Visibility.tokens, List.cons_append, List.append_assoc, List.nil_append]
  · refine .bind (.advance fun word rest₃ h₂ => ?_)
    rw [h₂, List.head?_cons, Option.any_some, beq_iff_eq] at hin
    refine .bind (.expect fun closing rest₄ h₃ hclosing => .pure ?_)
    refine ⟨some (.named ⟨pub, hpub⟩ ⟨paren, hparen⟩ ⟨word, hin⟩ ⟨closing, hclosing⟩), ?_⟩
    rw [hts, h₁, h₂, h₃]
    rfl

/-- What is read is derived. -/
theorem exists_derivation {base : Position} {out : Option String × UseTree}
    (h : ((declaration base).runOn ts).1 = .ok out) :
    ∃ d : Grammar.Declaration, d.tokens = ts := by
  have hreads : Reads (declaration base) ts fun _ _ =>
      ∃ d : Grammar.Declaration, d.tokens = ts := by
    refine .bind (reads_derived_visibility.imp fun v rest₁ hv => ?_)
    obtain ⟨scope, hts⟩ := hv
    refine .bind (.expect fun use rest₂ h₁ huse => ?_)
    refine .bind ((reads_derived_root base).imp fun t rest₃ hr => .bind (.isNext ?_))
    obtain ⟨root, h₂⟩ := hr
    refine .ite (fun hsemi => .bind (.advance fun semi rest₄ h₃ => .bind (.peek ?_)))
      fun _ => .bind (.peek ?_)
    · rw [h₃, List.head?_cons, Option.any_some, beq_iff_eq] at hsemi
      cases rest₄ with
      | nil => exact .pure ⟨⟨scope, ⟨use, huse⟩, root, some ⟨semi, hsemi⟩⟩, by
          rw [hts, h₁, h₂, h₃]; rfl⟩
      | cons u rest => exact .throw_bind _ _
    · cases rest₃ with
      | nil => exact .pure ⟨⟨scope, ⟨use, huse⟩, root, none⟩, by rw [hts, h₁, h₂]; rfl⟩
      | cons u rest => exact .throw_bind _ _
  exact hreads out _ (Prod.ext h rfl)

/-- The reader accepts exactly what the grammar derives, and answers with the visibility and the
tree of the one derivation; on other tokens it fails. -/
theorem declaration_reads_grammar (base : Position) (ts : List Token) :
    (∀ d : Grammar.Declaration, d.tokens = ts →
        (declaration base).runOn ts = (.ok (d.visibility, d.tree base), [])) ∧
      ((∃ out, ((declaration base).runOn ts).1 = .ok out) ↔
        ∃! d : Grammar.Declaration, d.tokens = ts) ∧
      ((∃ e, ((declaration base).runOn ts).1 = .error e) ↔
        ∀ d : Grammar.Declaration, d.tokens ≠ ts) := by
  have hread : ∀ d : Grammar.Declaration, d.tokens = ts →
      (declaration base).runOn ts = (.ok (d.visibility, d.tree base), []) := by
    rintro d rfl
    exact runOn_derivation base d
  refine ⟨hread, ⟨?_, ?_⟩, ⟨?_, fun hnone => ?_⟩⟩
  · rintro ⟨out, hout⟩
    obtain ⟨d, hd⟩ := exists_derivation hout
    exact ⟨d, hd, fun d' hd' => Grammar.Declaration.eq_of_tokens (hd'.trans hd.symm)⟩
  · rintro ⟨d, hd, -⟩
    exact ⟨_, congrArg Prod.fst (hread d hd)⟩
  · rintro ⟨e, he⟩ d hd
    rw [hread d hd] at he
    cases he
  · cases hrun : ((declaration base).runOn ts).1 with
    | error e => exact ⟨e, rfl⟩
    | ok out =>
      obtain ⟨d, hd⟩ := exists_derivation hrun
      exact absurd hd (hnone d)

end Parser

end TidyUse
