import Mathlib.Data.List.Basic
import Mathlib.Data.String.Basic
import TidyUse.Proofs.Lines
import TidyUse.Proofs.Trie
import TidyUse.Token.Lexer

/-!
# Words and the trees made of them

* `Text.not_isSpace_of_isIdentContinue` : no character of a word is white space;
* `Token.isIdentifier`, `Token.isSegmentWord` : the words that name an item or a step of a path;
* `Target.joinPath_inj` : a path of words can be read off its text;
* `UseTree.Grammatical` : a tree as it can be written in a declaration;
* `UseTree.NoDoubleSelf` : no `self` stands for a path that itself ends in `self`.
-/

namespace TidyUse

namespace Text

/-! ## Classes of characters -/

def spaceRanges : List (Nat × Nat) :=
  [(0x09, 0x0d), (0x1c, 0x20), (0x85, 0x85), (0xa0, 0xa0), (0x1680, 0x1680), (0x2000, 0x200a),
   (0x2028, 0x2029), (0x202f, 0x202f), (0x205f, 0x205f), (0x3000, 0x3000)]

theorem isSpace_eq_inRanges (c : Char) : isSpace c = inRanges spaceRanges c := by
  simp only [isSpace, inRanges, spaceRanges, List.any_cons, List.any_nil]
  rw [Bool.eq_iff_iff]
  simp only [Bool.or_eq_true, Bool.and_eq_true, decide_eq_true_eq, beq_iff_eq, Bool.or_false]
  omega

/-- No code point lies in a range of both tables. -/
def apart (s t : List (Nat × Nat)) : Bool :=
  s.all fun a => t.all fun b => a.2 < b.1 || b.2 < a.1

theorem inRanges_eq_false_of_apart {s t : List (Nat × Nat)} (h : apart s t = true) {c : Char}
    (hs : inRanges s c = true) : inRanges t c = false := by
  rw [Bool.eq_false_iff]
  intro ht
  obtain ⟨a, ha, hca⟩ := List.any_eq_true.1 hs
  obtain ⟨b, hb, hcb⟩ := List.any_eq_true.1 ht
  have hab := List.all_eq_true.1 (List.all_eq_true.1 h a ha) b hb
  simp only [Bool.and_eq_true, Bool.or_eq_true, decide_eq_true_eq] at hca hcb hab
  omega

theorem apart_space_letters : apart spaceRanges letterRanges = true := by decide +kernel

theorem apart_space_openers : apart spaceRanges openingNonLetters = true := by decide +kernel

theorem apart_space_extenders : apart spaceRanges extenders = true := by decide +kernel

theorem apart_space_numerals : apart spaceRanges numeralRanges = true := by decide +kernel

theorem not_isSpace_of_ascii {c : Char} (h : c.isAlpha = true ∨ c.isDigit = true ∨ c = '_') :
    isSpace c = false := by
  rw [Bool.eq_false_iff]
  intro hs
  delta Char.isAlpha Char.isUpper Char.isLower at h
  simp only [Char.isDigit, Bool.or_eq_true, Bool.and_eq_true, decide_eq_true_eq] at h
  simp only [isSpace, Bool.or_eq_true, Bool.and_eq_true, decide_eq_true_eq, beq_iff_eq,
    Char.toNat] at hs
  rcases h with (h | h) | h | rfl
  · have h1 : 65 ≤ c.val.toNat := h.1
    have h2 : c.val.toNat ≤ 90 := h.2
    omega
  · have h1 : 97 ≤ c.val.toNat := h.1
    have h2 : c.val.toNat ≤ 122 := h.2
    omega
  · have h1 : 48 ≤ c.val.toNat := h.1
    have h2 : c.val.toNat ≤ 57 := h.2
    omega
  · revert hs
    decide

theorem not_isSpace_of_isIdentContinue {c : Char} (h : isIdentContinue c = true) :
    isSpace c = false := by
  rw [Bool.eq_false_iff]
  intro hs
  have hr : inRanges spaceRanges c = true := isSpace_eq_inRanges c ▸ hs
  have hl := inRanges_eq_false_of_apart apart_space_letters hr
  have ho := inRanges_eq_false_of_apart apart_space_openers hr
  have he := inRanges_eq_false_of_apart apart_space_extenders hr
  rw [isIdentContinue, isIdentStart, hl, ho, he] at h
  -- what is left are the ASCII letters, the digits and the underscore
  simp only [Bool.false_and, Bool.or_false, Bool.or_eq_true, beq_iff_eq] at h
  rw [not_isSpace_of_ascii (by tauto)] at hs
  exact Bool.false_ne_true hs

theorem not_isSpace_of_isWordChar {c : Char} (h : isWordChar c = true) : isSpace c = false := by
  rw [Bool.eq_false_iff]
  intro hs
  have hr : inRanges spaceRanges c = true := isSpace_eq_inRanges c ▸ hs
  have hl := inRanges_eq_false_of_apart apart_space_letters hr
  have hn := inRanges_eq_false_of_apart apart_space_numerals hr
  rw [isWordChar, isLetter, isNumeral, hl, hn] at h
  simp only [Bool.or_false, Bool.or_eq_true, beq_iff_eq] at h
  rw [not_isSpace_of_ascii (by tauto)] at hs
  exact Bool.false_ne_true hs

def marks : List Char :=
  ['\x7b', '\x7d', ',', ';', '*', '(', ')', '[', '/', ':', '#', '\n', ' ']

theorem isIdentContinue_mark : ∀ c ∈ marks, isIdentContinue c = false :=
  forall_mem_of_all (by decide +kernel)

theorem isIdentContinue_of_isIdentStart {c : Char} (h : isIdentStart c = true) :
    isIdentContinue c = true := by
  rw [isIdentContinue, h, Bool.true_or, Bool.true_or]

theorem not_mem_marks {c : Char} (h : isIdentContinue c = true) : c ∉ marks := by
  intro hm
  rw [isIdentContinue_mark c hm] at h
  exact Bool.false_ne_true h

end Text

open Text

/-! ## Words -/

namespace Token

/-- The text of an identifier: a word that is not reserved, or any word behind `r#`. -/
def isIdentifier : List Char → Bool
  | 'r' :: '#' :: d :: r => isIdentStart d && r.all isIdentContinue
  | c :: cs =>
    isIdentStart c && cs.all isIdentContinue &&
      Kind.ofWord (String.ofList (c :: cs)) == .identifier
  | [] => false

/-- The text of a step of a path. -/
def isSegmentWord (word : String) : Bool :=
  isIdentifier word.toList || word == "self" || word == "crate" || word == "super"

theorem isIdentifier_chars {w : List Char} (h : isIdentifier w = true) :
    ∀ c ∈ w, isIdentContinue c = true ∨ c = '#' := by
  intro x hx
  unfold isIdentifier at h
  split at h
  · rename_i d r
    rw [Bool.and_eq_true] at h
    simp only [List.mem_cons] at hx
    rcases hx with rfl | rfl | rfl | hx
    · exact Or.inl (by decide +kernel)
    · exact Or.inr rfl
    · exact Or.inl (isIdentContinue_of_isIdentStart h.1)
    · exact Or.inl (List.all_eq_true.1 h.2 x hx)
  · rename_i c cs _
    rw [Bool.and_eq_true, Bool.and_eq_true] at h
    rcases List.mem_cons.1 hx with rfl | hx
    · exact Or.inl (isIdentContinue_of_isIdentStart h.1.1)
    · exact Or.inl (List.all_eq_true.1 h.1.2 x hx)
  · simp at hx

theorem isSegmentWord_chars {w : String} (h : isSegmentWord w = true) :
    ∀ c ∈ w.toList, isIdentContinue c = true ∨ c = '#' := by
  simp only [isSegmentWord, Bool.or_eq_true, beq_iff_eq] at h
  rcases h with ((h | rfl) | rfl) | rfl
  · exact isIdentifier_chars h
  all_goals
    refine fun c hc => Or.inl ?_
    revert c
    exact forall_mem_of_all (by decide +kernel)

theorem colon_not_mem_of_isSegmentWord {w : String} (h : isSegmentWord w = true) :
    ':' ∉ w.toList := by
  intro hc
  rcases isSegmentWord_chars h _ hc with h | h
  · exact not_mem_marks h (by decide)
  · exact absurd h (by decide)

theorem star_not_isSegmentWord : isSegmentWord UseTree.globName = false := by decide +kernel

end Token

open Token

/-! ## Paths -/

namespace Target

/-- The characters of a path. -/
theorem toList_joinPath (names : List String) :
    (joinPath names).toList = [':', ':'].intercalate (names.map String.toList) := by
  rw [joinPath, String.toList_intercalate]
  rfl

theorem append_inj_of_colon {u v x y : List Char} (hu : ':' ∉ u) (hv : ':' ∉ v)
    (h : u ++ ':' :: x = v ++ ':' :: y) : u = v ∧ x = y := by
  induction u generalizing v with
  | nil =>
    cases v with
    | nil => simpa using h
    | cons c v =>
      rw [List.nil_append, List.cons_append] at h
      exact absurd ((List.cons.inj h).1 ▸ List.mem_cons_self) hv
  | cons c u ih =>
    cases v with
    | nil =>
      rw [List.nil_append, List.cons_append] at h
      exact absurd ((List.cons.inj h).1 ▸ List.mem_cons_self) hu
    | cons d v =>
      rw [List.cons_append, List.cons_append] at h
      obtain ⟨hcd, ht⟩ := List.cons.inj h
      obtain ⟨huv, hxy⟩ := ih (fun hm => hu (List.mem_cons_of_mem _ hm))
        (fun hm => hv (List.mem_cons_of_mem _ hm)) ht
      exact ⟨by rw [hcd, huv], hxy⟩

theorem intercalate_colons_inj {us vs : List (List Char)} (hu : ∀ u ∈ us, ':' ∉ u)
    (hv : ∀ v ∈ vs, ':' ∉ v) (hus : us ≠ []) (hvs : vs ≠ [])
    (h : [':', ':'].intercalate us = [':', ':'].intercalate vs) : us = vs := by
  induction us generalizing vs with
  | nil => exact absurd rfl hus
  | cons u us ih =>
    obtain ⟨v, vs, rfl⟩ := List.exists_cons_of_ne_nil hvs
    obtain ⟨hu₀, hu'⟩ := List.forall_mem_cons.1 hu
    obtain ⟨hv₀, hv'⟩ := List.forall_mem_cons.1 hv
    cases us with
    | nil =>
      cases vs with
      | nil => simpa using h
      | cons v' vs =>
        rw [List.intercalate_singleton, List.intercalate_cons_cons] at h
        exact absurd (by simp [h]) hu₀
    | cons u' us =>
      cases vs with
      | nil =>
        rw [List.intercalate_singleton, List.intercalate_cons_cons] at h
        exact absurd (by simp [← h]) hv₀
      | cons v' vs =>
        rw [List.intercalate_cons_cons, List.intercalate_cons_cons] at h
        simp only [List.append_assoc, List.cons_append, List.nil_append] at h
        obtain ⟨huv, ht⟩ := append_inj_of_colon hu₀ hv₀ h
        rw [huv, ih hu' hv' (by simp) (by simp) (List.cons.inj ht).2]

/-- A path of names without colons can be read off its text. -/
theorem joinPath_inj {p q : List String} (hp : ∀ n ∈ p, ':' ∉ n.toList)
    (hq : ∀ n ∈ q, ':' ∉ n.toList) (hne : p ≠ []) (hne' : q ≠ [])
    (h : joinPath p = joinPath q) : p = q := by
  have hl := congrArg String.toList h
  rw [toList_joinPath, toList_joinPath] at hl
  have hmap := intercalate_colons_inj (by simpa using hp) (by simpa using hq) (by simpa using hne)
    (by simpa using hne') hl
  exact List.map_injective_iff.2 (fun _ _ => String.toList_injective) hmap

/-- Imports by paths of words are told apart by their keys. -/
theorem key_inj {t u : Target} (ht : ∀ n ∈ t.path, isSegmentWord n = true)
    (hu : ∀ n ∈ u.path, isSegmentWord n = true) (hne : t.path ≠ []) (hne' : u.path ≠ [])
    (h : t.key = u.key) : (t.path, t.isGlob) = (u.path, u.isGlob) := by
  have key_eq : ∀ v : Target, v.path ≠ [] →
      v.key = joinPath (v.path ++ if v.isGlob then [UseTree.globName] else []) := by
    intro v hv
    rw [key]
    split
    · refine String.toList_injective ?_
      rw [String.toList_append, toList_joinPath, toList_joinPath, List.map_append,
        intercalate_append _ (by simpa using hv) (by simp), List.append_assoc]
      rfl
    · rw [List.append_nil]
  have colon : ∀ v : Target, (∀ n ∈ v.path, isSegmentWord n = true) →
      ∀ n ∈ v.path ++ (if v.isGlob then [UseTree.globName] else []), ':' ∉ n.toList := by
    intro v hv n hn
    rcases List.mem_append.1 hn with hn | hn
    · exact colon_not_mem_of_isSegmentWord (hv n hn)
    · split at hn
      · rw [List.mem_singleton.1 hn]
        decide
      · simp at hn
  rw [key_eq t hne, key_eq u hne'] at h
  have hlist := joinPath_inj (colon t ht) (colon u hu) (by simp [hne]) (by simp [hne']) h
  have star : ∀ v : Target, (∀ n ∈ v.path, isSegmentWord n = true) → UseTree.globName ∉ v.path :=
    fun v hv hm => by
      have := hv _ hm
      rw [star_not_isSegmentWord] at this
      exact Bool.false_ne_true this
  cases hgt : t.isGlob <;> cases hgu : u.isGlob <;>
    simp only [hgt, hgu, if_true, Bool.false_eq_true, if_false, List.append_nil] at hlist
  · rw [hlist]
  · exact absurd (by simp [hlist]) (star t ht)
  · exact absurd (by simp [← hlist]) (star u hu)
  · rw [List.append_cancel_right hlist]

end Target

/-! ## Trees -/

namespace UseTree

/-- A tree as it can be written below another name. -/
inductive GrammaticalBelow : UseTree → Prop
  | glob {s : Segment} (name : s.name = globName) (rename : s.rename = none) :
    GrammaticalBelow (.glob s)
  | leaf {s : Segment} (name : isSegmentWord s.name = true)
    (rename : ∀ r, s.rename = some r → isIdentifier r.toList = true) :
    GrammaticalBelow (.node s [])
  | branch {s : Segment} {cs : List UseTree} (name : isSegmentWord s.name = true)
    (rename : s.rename = none) (some : cs ≠ []) (below : ∀ c ∈ cs, GrammaticalBelow c) :
    GrammaticalBelow (.node s cs)

/-- A tree as it can be written in a declaration: no glob stands at the root. -/
structure Grammatical (t : UseTree) : Prop where
  rooted : t.isGlob = false
  written : t.GrammaticalBelow

/-- Below a name there is no `self` right under a `self`. -/
inductive NoDoubleSelfBelow : UseTree → Prop
  | glob {s : Segment} : NoDoubleSelfBelow (.glob s)
  | node {s : Segment} {cs : List UseTree} (here : s.name = selfName → ∀ c ∈ cs, c.isSelf = false)
    (below : ∀ c ∈ cs, NoDoubleSelfBelow c) : NoDoubleSelfBelow (.node s cs)

/-- There is no `self` right under a `self` that is not the root. -/
def NoDoubleSelf (t : UseTree) : Prop := ∀ c ∈ t.children, c.NoDoubleSelfBelow

theorem GrammaticalBelow.name_isSegmentWord {s : Segment} {cs : List UseTree}
    (h : GrammaticalBelow (.node s cs)) : isSegmentWord s.name = true := by
  cases h with
  | leaf name _ => exact name
  | branch name _ _ _ => exact name

theorem GrammaticalBelow.of_mem {s : Segment} {cs : List UseTree}
    (h : GrammaticalBelow (.node s cs)) : ∀ c ∈ cs, GrammaticalBelow c := by
  cases h with
  | leaf _ _ => simp
  | branch _ _ _ below => exact below

theorem grammaticalBelow_bare {t : UseTree} : t.bare.GrammaticalBelow ↔ t.GrammaticalBelow := by
  induction t with
  | glob s =>
    rw [bare_glob]
    constructor <;> rintro ⟨name, rename⟩ <;> exact .glob name rename
  | node s cs ih =>
    rw [bare_node]
    constructor
    · intro h
      cases cs with
      | nil =>
        cases h with
        | leaf name rename => exact .leaf name rename
        | branch _ _ some _ => exact absurd rfl some
      | cons c cs =>
        cases h with
        | branch name rename _ below =>
          refine .branch name rename (List.cons_ne_nil _ _) fun d hd => ?_
          exact (ih d hd).1 (below d.bare (List.mem_map_of_mem hd))
    · intro h
      cases h with
      | leaf name rename => exact .leaf name rename
      | branch name rename some below =>
        refine .branch name rename (by simpa using some) fun d hd => ?_
        obtain ⟨c, hc, rfl⟩ := List.mem_map.1 hd
        exact (ih c hc).2 (below c hc)

theorem grammatical_bare {t : UseTree} : t.bare.Grammatical ↔ t.Grammatical := by
  constructor
  · rintro ⟨rooted, written⟩
    exact ⟨isGlob_bare t ▸ rooted, grammaticalBelow_bare.1 written⟩
  · rintro ⟨rooted, written⟩
    exact ⟨(isGlob_bare t).trans rooted, grammaticalBelow_bare.2 written⟩

/-- What a tree below a path of words imports: paths of words that go on from there. -/
theorem GrammaticalBelow.importsBelow {t : UseTree} (h : t.GrammaticalBelow) {path : List String}
    (hp : ∀ n ∈ path, isSegmentWord n = true) {i : Target} (hi : i ∈ t.importsBelow path) :
    path <+: i.path ∧ (∀ n ∈ i.path, isSegmentWord n = true) ∧
      (i.isGlob = true → i.rename = none) ∧
      ∀ r, i.rename = some r → isIdentifier r.toList = true := by
  induction t generalizing path with
  | glob s =>
    rw [importsBelow_glob, List.mem_singleton] at hi
    subst hi
    exact ⟨List.prefix_rfl, hp, fun _ => rfl, fun r hr => by simp at hr⟩
  | node s cs ih =>
    have hname := h.name_isSegmentWord
    have hp' : ∀ n ∈ path ++ [s.name], isSegmentWord n = true := by
      intro n hn
      rcases List.mem_append.1 hn with hn | hn
      · exact hp n hn
      · exact List.mem_singleton.1 hn ▸ hname
    cases cs with
    | nil =>
      rw [importsBelow_leaf, List.mem_singleton] at hi
      subst hi
      cases h with
      | leaf _ rename =>
        refine ⟨?_, ?_, fun h => by simp at h, rename⟩
        · dsimp only
          split
          · exact List.prefix_rfl
          · exact List.prefix_append _ _
        · dsimp only
          split
          · exact hp
          · exact hp'
      | branch _ _ some _ => exact absurd rfl some
    | cons c cs =>
      rw [importsBelow_node_cons, List.mem_flatMap] at hi
      obtain ⟨d, hd, hi⟩ := hi
      obtain ⟨hpre, hrest⟩ := ih d hd (h.of_mem d hd) hp' hi
      exact ⟨(List.prefix_append _ _).trans hpre, hrest⟩

/-- What a tree imports: paths of words that start with its name. -/
theorem Grammatical.imports {t : UseTree} (h : t.Grammatical) {i : Target} (hi : i ∈ t.imports) :
    (∃ p, i.path = t.name :: p) ∧ (∀ n ∈ i.path, isSegmentWord n = true) ∧
      (i.isGlob = true → i.rename = none) ∧
      ∀ r, i.rename = some r → isIdentifier r.toList = true := by
  obtain ⟨hg, hw⟩ := h
  match t with
  | .glob s => simp [isGlob] at hg
  | .node s [] =>
    rw [imports_leaf, List.mem_singleton] at hi
    subst hi
    cases hw with
    | leaf name rename => exact ⟨⟨[], rfl⟩, by simpa using name, fun h => by simp at h, rename⟩
    | branch _ _ some _ => exact absurd rfl some
  | .node s (c :: cs) =>
    rw [imports_node_cons, List.mem_flatMap] at hi
    obtain ⟨d, hd, hi⟩ := hi
    have hname := hw.name_isSegmentWord
    obtain ⟨⟨p, hp⟩, hrest⟩ := (hw.of_mem d hd).importsBelow (by simpa using hname) hi
    exact ⟨⟨p, hp.symm⟩, hrest⟩

theorem NoDoubleSelfBelow.importsBelow {t : UseTree} (h : t.NoDoubleSelfBelow) {path : List String}
    (hp : path ≠ []) (hself : 2 ≤ path.length → path.getLast? = some selfName → t.isSelf = false)
    {i : Target} (hi : i ∈ t.importsBelow path) : ¬ i.EndsInSelf := by
  induction t generalizing path with
  | glob s =>
    rw [importsBelow_glob, List.mem_singleton] at hi
    subst hi
    exact fun hend => by simpa using hend.1
  | node s cs ih =>
    cases cs with
    | nil =>
      rw [importsBelow_leaf, List.mem_singleton] at hi
      subst hi
      rintro ⟨-, hlen, hlast⟩
      by_cases hs : s.name = selfName
      · simp only [hs, beq_self_eq_true, if_true] at hlen hlast
        simpa [isSelf, hs] using hself hlen hlast
      · simp [hs] at hlast
    | cons c cs =>
      rw [importsBelow_node_cons, List.mem_flatMap] at hi
      obtain ⟨d, hd, hi⟩ := hi
      cases h with
      | node here below =>
        refine ih d hd (below d hd) (by simp) (fun _ hlast => ?_) hi
        exact here (by simpa using hlast) d hd

theorem NoDoubleSelf.imports {t : UseTree} (h : t.NoDoubleSelf) {i : Target} (hi : i ∈ t.imports) :
    ¬ i.EndsInSelf := by
  have single : ∀ (n : String) (r : Option String), ¬ Target.EndsInSelf { path := [n], rename := r } :=
    fun n r hend => by simpa using hend.2.1
  match t with
  | .glob s => rw [imports_glob, List.mem_singleton] at hi; exact hi ▸ single _ _
  | .node s [] => rw [imports_leaf, List.mem_singleton] at hi; exact hi ▸ single _ _
  | .node s (c :: cs) =>
    rw [imports_node_cons, List.mem_flatMap] at hi
    obtain ⟨d, hd, hi⟩ := hi
    exact (h d hd).importsBelow (by simp) (fun hlen => by simp at hlen) hi

end UseTree

end TidyUse
