import TidyUse.Proofs.Parsing

/-!
# What readers take

* `UseTree.steps` : the steps of a tree as they are written, from left to right;
* `Parser.Takes` : steps that come from tokens in front of others, in order and with their places;
* `Parser.Reads` : what is true of the answer of a reader on some tokens and of what it leaves;
* `Parser.sublist_of_declaration` : the steps of a declaration come from its tokens.
-/

namespace TidyUse

def Segment.label (s : Segment) : String × Option Span := (s.name, s.span)

/-- The text and the place of a token, when the first token's text starts at `base`. -/
def Token.label (base : Position) (t : Token) : String × Option Span :=
  (t.text, some (Parser.spanOf base t))

namespace UseTree

mutual

def steps : UseTree → List Segment
  | glob s => [s]
  | node s cs => s :: stepsAll cs

def stepsAll : List UseTree → List Segment
  | [] => []
  | t :: ts => steps t ++ stepsAll ts

end

theorem stepsAll_eq_flatMap (ts : List UseTree) : stepsAll ts = ts.flatMap steps := by
  induction ts with
  | nil => simp [stepsAll]
  | cons t ts ih => simp [stepsAll, ih]

end UseTree

namespace Parser

variable {α β : Type}

/-! ## Steps and tokens -/

/-- Steps that come, in order, from the tokens in front of `rest`. -/
def Takes (base : Position) (ts : List Token) (steps : List Segment) (rest : List Token) : Prop :=
  ∃ taken, ts = taken ++ rest ∧ (steps.map Segment.label).Sublist (taken.map (Token.label base))

namespace Takes

variable {base : Position} {ts mid rest : List Token} {steps steps' : List Segment}

theorem nil : Takes base ts [] ts := ⟨[], rfl, .slnil⟩

theorem skip (t : Token) : Takes base (t :: rest) [] rest := ⟨[t], rfl, List.nil_sublist _⟩

theorem step {t : Token} {s : Segment} (h : s.label = t.label base) :
    Takes base (t :: rest) [s] rest := by
  refine ⟨[t], rfl, ?_⟩
  rw [List.map_singleton, List.map_singleton, h]

theorem trans (h : Takes base ts steps mid) (h' : Takes base mid steps' rest) :
    Takes base ts (steps ++ steps') rest := by
  obtain ⟨taken, rfl, hsteps⟩ := h
  obtain ⟨taken', rfl, hsteps'⟩ := h'
  refine ⟨taken ++ taken', by rw [List.append_assoc], ?_⟩
  rw [List.map_append, List.map_append]
  exact hsteps.append hsteps'

theorem then_skip (h : Takes base ts steps mid) (h' : Takes base mid [] rest) :
    Takes base ts steps rest := by
  have hall := h.trans h'
  rwa [List.append_nil] at hall

theorem genuine (h : Takes base ts steps rest) (hts : ∀ t ∈ ts, t.Genuine) :
    ∀ t ∈ rest, t.Genuine := by
  obtain ⟨taken, rfl, -⟩ := h
  exact fun t ht => hts t (List.mem_append_right _ ht)

end Takes

/-! ## Answers -/

/-- On some tokens, every answer of the reader and the tokens it leaves satisfy `Q`. -/
def Reads (p : Parser α) (ts : List Token) (Q : α → List Token → Prop) : Prop :=
  ∀ a rest, p.runOn ts = (.ok a, rest) → Q a rest

namespace Reads

variable {ts : List Token} {Q : α → List Token → Prop} {R : β → List Token → Prop}

theorem imp {Q' : α → List Token → Prop} {p : Parser α} (h : Reads p ts Q)
    (hQ : ∀ a rest, Q a rest → Q' a rest) : Reads p ts Q' :=
  fun a rest hrun => hQ a rest (h a rest hrun)

theorem pure {a : α} (h : Q a ts) : Reads (Pure.pure a) ts Q := by
  intro b rest hrun
  cases hrun
  exact h

theorem throw (e : ParseError) : Reads (MonadExcept.throw e) ts Q := by
  intro a rest hrun
  cases hrun

theorem throw_bind (e : ParseError) (k : α → Parser β) :
    Reads (MonadExcept.throw e >>= k) ts R := by
  intro a rest hrun
  cases hrun

theorem bind {p : Parser α} {k : α → Parser β}
    (h : Reads p ts fun a rest => Reads (k a) rest R) : Reads (p >>= k) ts R := by
  intro b rest hrun
  rw [runOn_bind] at hrun
  rcases hp : p.runOn ts with ⟨e | a, mid⟩ <;> rw [hp] at hrun
  · cases hrun
  · exact h a mid hp b rest hrun

theorem ite {c : Prop} [Decidable c] {p q : Parser α} (h : c → Reads p ts Q)
    (h' : ¬ c → Reads q ts Q) : Reads (if c then p else q) ts Q := by
  split
  · rename_i hc
    exact h hc
  · rename_i hc
    exact h' hc

theorem isNext {kind : Token.Kind} {Q : Bool → List Token → Prop}
    (h : Q (ts.head?.any fun t => t.kind == kind) ts) : Reads (isNext kind) ts Q := by
  intro a rest hrun
  cases hrun
  exact h

theorem peek {offset : Nat} {Q : Option Token → List Token → Prop} (h : Q ts[offset]? ts) :
    Reads (peek offset) ts Q := by
  intro a rest hrun
  cases hrun
  exact h

theorem advance {Q : Token → List Token → Prop} (h : ∀ t rest, ts = t :: rest → Q t rest) :
    Reads advance ts Q := by
  intro a rest hrun
  cases ts with
  | nil => cases hrun
  | cons t ts =>
    cases hrun
    exact h a rest rfl

theorem expect {kind : Token.Kind} {Q : Token → List Token → Prop}
    (h : ∀ t rest, ts = t :: rest → t.kind = kind → Q t rest) : Reads (expect kind) ts Q := by
  intro a rest hrun
  cases ts with
  | nil => cases hrun
  | cons t ts =>
    rw [runOn_expect_cons] at hrun
    split at hrun
    · rename_i hkind
      cases hrun
      exact h a rest rfl hkind
    · cases hrun

end Reads

/-! ## Parts of a declaration -/

variable {ts : List Token}

theorem reads_rename (base : Position) : Reads rename ts fun _ rest => Takes base ts [] rest := by
  refine .bind (.isNext (.ite (fun _ => ?_) fun _ => .pure .nil))
  refine .bind (.advance fun t rest hts => .bind (.expect fun u rest' hrest _ => .pure ?_))
  rw [hts, hrest]
  exact (Takes.skip t).trans (.skip u)

theorem reads_segment (base : Position) :
    Reads (segment base) ts fun s rest => Takes base ts [s] rest := by
  refine .bind (.advance fun t rest hts => .ite (fun _ => ?_) fun _ => .throw_bind _ _)
  refine .bind ((reads_rename base).imp fun r rest' hrest => .pure ?_)
  rw [hts]
  exact (Takes.step rfl).then_skip hrest

theorem reads_glob (base : Position) (hgen : ∀ t ∈ ts, t.Genuine)
    (hstar : (ts.head?.any fun t => t.kind == .star) = true) :
    Reads (glob base) ts fun t rest => Takes base ts t.steps rest := by
  refine .bind (.advance fun t rest hts => .pure ?_)
  subst hts
  have hkind : t.kind = .star := by simpa using hstar
  have htext : t.text = UseTree.globName := by
    have ht := hgen t List.mem_cons_self
    rwa [Token.Genuine, hkind, if_neg (by decide)] at ht
  exact .step (by rw [Segment.label, Token.label, htext])

theorem reads_selfLeaf (base : Position) (hgen : ∀ t ∈ ts, t.Genuine)
    (hself : (ts.head?.any fun t => t.kind == .selfWord) = true) :
    Reads (selfLeaf base) ts fun t rest => Takes base ts t.steps rest := by
  refine .bind (.advance fun t rest hts =>
    .bind ((reads_rename base).imp fun r rest' hrest => .pure ?_))
  subst hts
  have hkind : t.kind = .selfWord := by simpa using hself
  have htext : t.text = UseTree.selfName := by
    have ht := hgen t List.mem_cons_self
    rwa [Token.Genuine, hkind, if_neg (by decide)] at ht
  exact (Takes.step (by rw [Segment.label, Token.label, htext])).then_skip hrest

/-- A tree, and trees between commas, take the tokens of their steps. -/
theorem reads_trees (base : Position) (n : Nat) :
    (∀ nested ts, (∀ t ∈ ts, t.Genuine) →
        Reads (treeWithin base n nested) ts fun t rest => Takes base ts t.steps rest) ∧
      ∀ ts, (∀ t ∈ ts, t.Genuine) →
        Reads (treeListWithin base n) ts fun cs rest =>
          Takes base ts (UseTree.stepsAll cs) rest := by
  induction n with
  | zero =>
    refine ⟨fun nested ts _ => ?_, fun ts _ => ?_⟩
    · rw [treeWithin]
      exact .throw _
    · rw [treeListWithin]
      exact .throw _
  | succ n ih =>
    obtain ⟨ihtree, ihlist⟩ := ih
    refine ⟨fun nested ts hgen => ?_, fun ts hgen => ?_⟩
    · rw [treeWithin]
      refine .bind (.peek (.ite (fun _ => .throw_bind _ _) fun _ => .bind (.isNext ?_)))
      refine .ite (fun hstar => .ite (fun _ => reads_glob base hgen hstar) fun _ => .throw _)
        fun _ => ?_
      refine .bind (.bind (.peek (.bind (.isNext (.pure ?_)))))
      refine .ite (fun hself => ?_) fun _ => ?_
      · simp only [Bool.and_eq_true] at hself
        exact reads_selfLeaf base hgen hself.2.1
      refine .bind ((reads_segment base).imp fun s rest hs => .bind (.isNext ?_))
      refine .ite (fun _ => ?_) fun _ => .pure ?_
      · refine .bind (.advance fun sep rest₁ hsep => ?_)
        have h₁ : Takes base ts [s] rest₁ := hs.then_skip (hsep ▸ .skip sep)
        cases hr : s.rename with
        | some name => exact .throw_bind _ _
        | none =>
          refine .bind (.isNext (.ite (fun _ => ?_) fun _ => ?_))
          · refine .bind (.advance fun brace rest₂ hbrace => ?_)
            have h₂ : Takes base ts [s] rest₂ := h₁.then_skip (hbrace ▸ .skip brace)
            refine .bind ((ihlist rest₂ (h₂.genuine hgen)).imp fun cs rest₃ hcs =>
              .bind (.expect fun close rest₄ hclose _ => .pure ?_))
            rw [UseTree.steps]
            exact (h₂.trans hcs).then_skip (hclose ▸ .skip close)
          · refine .bind ((ihtree true rest₁ (h₁.genuine hgen)).imp fun c rest₂ hc => .pure ?_)
            rw [UseTree.steps, UseTree.stepsAll, UseTree.stepsAll, List.append_nil]
            exact h₁.trans hc
      · rw [UseTree.steps, UseTree.stepsAll]
        exact hs
    · rw [treeListWithin]
      refine .bind (.isNext (.ite (fun _ => .throw_bind _ _) fun _ => ?_))
      refine .bind ((ihtree true ts hgen).imp fun first rest hfirst => .bind (.isNext ?_))
      have hone : Takes base ts (UseTree.stepsAll [first]) rest := by
        rw [UseTree.stepsAll, UseTree.stepsAll, List.append_nil]
        exact hfirst
      refine .ite (fun _ => ?_) fun _ => .pure hone
      refine .bind (.advance fun comma rest₁ hcomma => .bind (.isNext ?_))
      have hskip : Takes base rest [] rest₁ := hcomma ▸ .skip comma
      refine .ite (fun _ => .pure (hone.then_skip hskip)) fun _ => ?_
      have h₁ : Takes base ts first.steps rest₁ := hfirst.then_skip hskip
      refine .bind ((ihlist rest₁ (h₁.genuine hgen)).imp fun cs rest₂ hcs => .pure ?_)
      rw [UseTree.stepsAll]
      exact h₁.trans hcs

theorem reads_restriction (base : Position) :
    Reads restriction ts fun _ rest => Takes base ts [] rest := by
  intro parts rest hrun
  rw [runOn_restriction] at hrun
  dsimp only at hrun
  split at hrun
  · cases hrun
  · cases hrun
    exact ⟨_, List.takeWhile_append_dropWhile.symm, List.nil_sublist _⟩

theorem reads_visibility (base : Position) :
    Reads visibility ts fun _ rest => Takes base ts [] rest := by
  simp only [visibility, pure_bind]
  refine .bind (.isNext (.ite (fun _ => ?_) fun _ => .pure .nil))
  refine .bind (.advance fun pub rest₁ hpub => .bind (.isNext ?_))
  have h₁ : Takes base ts [] rest₁ := hpub ▸ .skip pub
  refine .ite (fun _ => ?_) fun _ => .pure h₁
  refine .bind (.advance fun paren rest₂ hparen => .bind (.isNext ?_))
  have h₂ : Takes base ts [] rest₂ := h₁.then_skip (hparen ▸ .skip paren)
  refine .ite (fun _ => ?_) fun _ => ?_
  · refine .bind (.advance fun word rest₃ hword => ?_)
    have h₃ : Takes base ts [] rest₃ := h₂.then_skip (hword ▸ .skip word)
    refine .bind ((reads_restriction base).imp fun parts rest₄ hparts => ?_)
    have h₄ : Takes base ts [] rest₄ := h₃.then_skip hparts
    refine .ite (fun _ => .throw_bind _ _) fun _ => ?_
    exact .bind (.expect fun close rest₅ hclose _ => .pure (h₄.then_skip (hclose ▸ .skip close)))
  · refine .bind (.advance fun word rest₃ hword => ?_)
    have h₃ : Takes base ts [] rest₃ := h₂.then_skip (hword ▸ .skip word)
    exact .bind (.expect fun close rest₄ hclose _ => .pure (h₃.then_skip (hclose ▸ .skip close)))

/-- The steps of a declaration come, in order, from its tokens. -/
theorem sublist_of_declaration (base : Position) (hgen : ∀ t ∈ ts, t.Genuine)
    {v : Option String} {t : UseTree} (h : ((declaration base).runOn ts).1 = .ok (v, t)) :
    (t.steps.map Segment.label).Sublist (ts.map (Token.label base)) := by
  have hreads : Reads (declaration base) ts fun d rest => Takes base ts d.2.steps rest := by
    refine .bind ((reads_visibility base).imp fun v rest₁ hvis => ?_)
    refine .bind (.expect fun use rest₂ huse _ => ?_)
    have h₂ : Takes base ts [] rest₂ := hvis.then_skip (huse ▸ .skip use)
    have htree : Reads (tree base false) rest₂ fun t rest => Takes base rest₂ t.steps rest := by
      refine .bind fun n rest hrun => ?_
      cases hrun
      exact (reads_trees base _).1 false rest₂ (h₂.genuine hgen)
    refine .bind (htree.imp fun t rest₃ ht => .bind (.isNext ?_))
    have h₃ : Takes base ts t.steps rest₃ := h₂.trans ht
    refine .ite (fun _ => .bind (.advance fun semi rest₄ hsemi => .bind (.peek ?_)))
      fun _ => .bind (.peek ?_)
    · cases rest₄[0]? with
      | none => exact .pure (h₃.then_skip (hsemi ▸ .skip semi))
      | some u => exact .throw_bind _ _
    · cases rest₃[0]? with
      | none => exact .pure h₃
      | some u => exact .throw_bind _ _
  obtain ⟨taken, hts, hsteps⟩ := hreads (v, t) _ (Prod.ext h rfl)
  rw [hts, List.map_append]
  exact hsteps.trans (List.sublist_append_left _ _)

end Parser

end TidyUse
