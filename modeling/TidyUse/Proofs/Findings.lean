import TidyUse.Proofs.Coverage
import TidyUse.Proofs.Sections

/-!
# What a scan finds

* `mem_statementsFrom`, `exists_mem_statementsFrom` : statements are the declarations to organize;
* `isAttribute_of_scan`, `grammatical_of_ofText` : these can be printed;
* `sound_scan` : so the imports of a document can be organized.
-/

namespace TidyUse

namespace Text

theorem trimStart_trimStart (l : List Char) : trimStart (trimStart l) = trimStart l := by
  cases h : trimStart l with
  | nil => rfl
  | cons c cs => exact trimStart_cons (isSpace_of_trimStart h) cs

/-- Trimming leaves the first character that is not white space. -/
theorem trim_cons {l cs : List Char} {c : Char} (h : trimStart l = c :: cs) :
    trim l = c :: trimEnd cs := by
  rw [trim, h, trimEnd, dropEndWhile_cons (isSpace_of_trimStart h)]
  rfl

theorem trim_trim (l : List Char) : trim (trim l) = trim l := by
  obtain ⟨ws, hws, happend⟩ := dropEndWhile_append isSpace (trimStart l)
  have hback : trim (trim l) = trim (trim l ++ ws) := (trim_append_right hws _).symm
  have hstart : trim l ++ ws = trimStart l := happend
  rw [hback, hstart, trim, trimStart_trimStart, trim]

end Text

namespace Document

open Text

/-- An attribute line holds an attribute. -/
theorem isAttribute_trim {l : Line} (h : isAttributeLine l = true) (hl : '\n' ∉ l) :
    Statement.IsAttribute (String.ofList (trim l)) := by
  obtain ⟨cs, hcs⟩ := isAttributeLine_iff.1 h
  refine ⟨?_, ?_, ?_⟩
  · rw [String.toList_ofList, trim]
    intro hn
    obtain ⟨ws, -, happend⟩ := dropEndWhile_append isSpace (trimStart l)
    exact hl ((List.dropWhile_sublist _).subset (happend ▸ List.mem_append_left ws hn))
  · rw [trimmed, String.toList_ofList, trim_trim]
  · have hbracket : isSpace '[' = false := by decide
    refine ⟨dropEndWhile isSpace cs, ?_⟩
    simp [trim_cons hcs, trimEnd, dropEndWhile_cons hbracket]

theorem isAttribute_of_mem_attributesAbove {above : List Line} (hl : ∀ l ∈ above, '\n' ∉ l)
    {a : String} (ha : a ∈ (attributesAbove above).texts) : Statement.IsAttribute a := by
  obtain ⟨block, above', rfl, hclear, hpass, hhead⟩ := exists_attribute_block above
  rw [attributesAbove_append hclear block hpass hhead, List.mem_map] at ha
  obtain ⟨l, hmem, rfl⟩ := ha
  obtain ⟨hmem, hattr⟩ := List.mem_filter.1 hmem
  exact isAttribute_trim hattr (hl l (List.mem_append_left _ (List.mem_reverse.2 hmem)))

/-- A text that is understood holds no comment, and is read so from the place where it stands. -/
theorem ofText_eq_parsed {base : Position} {text : List Char} {v : Option String} {t : UseTree}
    (h : Reading.ofText base text = .parsed v t) :
    holdsComment text = false ∧
      ((Parser.declaration base).runOn (Token.tokenize text)).1 = .ok (v, t) := by
  unfold Reading.ofText at h
  split at h
  · cases h
  · rename_i hcomment
    refine ⟨Bool.eq_false_iff.2 hcomment, ?_⟩
    split at h
    · rename_i v' t' hrun
      cases h
      exact hrun
    · cases h

/-- A declaration that is understood can be written. -/
theorem grammatical_of_ofText {base : Position} {text : List Char} {v : Option String}
    {t : UseTree} (h : Reading.ofText base text = .parsed v t) : t.Grammatical :=
  (Parser.ensures_declaration base _ (Token.genuine_tokenize text)).2 _ (ofText_eq_parsed h).2

/-! ## Statements -/

theorem Declaration.statement?_eq_some {d : Declaration} {block : Nat} {s : Statement}
    (h : d.statement? block = some s) :
    d.isStatement = true ∧ d.reading = .parsed s.visibility s.tree ∧
      s.attributes = d.attributes ∧ s.span = some d.span ∧ s.block = some (block : Int) := by
  rw [Declaration.statement?] at h
  split at h
  · rename_i v t hread
    split at h
    · cases h
    · rename_i htrailing
      cases h
      refine ⟨?_, hread, rfl, rfl, rfl⟩
      rw [Declaration.isStatement, hread]
      simpa using htrailing
  · cases h

theorem Declaration.exists_statement? {d : Declaration} (h : d.isStatement = true) (block : Nat) :
    ∃ s, d.statement? block = some s := by
  rw [Declaration.isStatement] at h
  split at h
  · rename_i v t hread
    rw [bne_iff_ne] at h
    rw [Declaration.statement?, hread]
    simp only [if_neg h]
    exact ⟨_, rfl⟩
  · cases h

/-- A statement is a declaration to organize. -/
theorem mem_statementsFrom {block : Nat} {hasMembers : Bool} {items : List Item} {s : Statement}
    (h : s ∈ statementsFrom block hasMembers items) :
    ∃ row d k, Item.declaration row d ∈ items ∧ d.statement? k = some s := by
  induction items generalizing block hasMembers with
  | nil => exact absurd h List.not_mem_nil
  | cons item items ih =>
    rw [statementsFrom] at h
    split at h
    · rename_i t ht
      rcases List.mem_cons.1 h with rfl | h
      · obtain ⟨d, hd, hs⟩ := Option.bind_eq_some_iff.1 ht
        cases item with
        | comment span => cases hd
        | declaration row d' =>
          rw [Item.organized?] at hd
          split at hd
          · cases hd
            exact ⟨row, d, block, List.mem_cons_self, hs⟩
          · cases hd
      · obtain ⟨row, d, k, hd, hs⟩ := ih h
        exact ⟨row, d, k, List.mem_cons_of_mem _ hd, hs⟩
    · obtain ⟨row, d, k, hd, hs⟩ := ih h
      exact ⟨row, d, k, List.mem_cons_of_mem _ hd, hs⟩

/-- A declaration to organize is a statement. -/
theorem exists_mem_statementsFrom {items : List Item} {row : Nat} {d : Declaration}
    (hd : Item.declaration row d ∈ items) (h : d.isStatement = true) (block : Nat)
    (hasMembers : Bool) :
    ∃ s ∈ statementsFrom block hasMembers items, ∃ k, d.statement? k = some s := by
  induction items generalizing block hasMembers with
  | nil => exact absurd hd List.not_mem_nil
  | cons item items ih =>
    rcases List.mem_cons.1 hd with rfl | hd
    · obtain ⟨s, hs⟩ := d.exists_statement? h block
      rw [statementsFrom, Item.organized?, if_pos h, Option.bind_some, hs]
      exact ⟨s, List.mem_cons_self, block, hs⟩
    · rw [statementsFrom]
      split
      · obtain ⟨s, hs, k, hk⟩ := ih hd block true
        exact ⟨s, List.mem_cons_of_mem _ hs, k, hk⟩
      · exact ih hd _ _

/-- A declaration of a survey, with the lines above it. -/
theorem exists_declared {ls : List Line} {row : Nat} {d : Declaration}
    (h : Item.declaration row d ∈ (survey ls).items) :
    ∃ above before first more after, d = declared above before first more after ∧
      ∀ l ∈ above, l ∈ ls := by
  obtain ⟨ss, st, hrun, hitems⟩ := exists_run ls
  rw [hitems] at h
  obtain ⟨s, hs, hitem⟩ := List.mem_filterMap.1 h
  obtain ⟨below, hlies⟩ := hrun.lies hs
  rw [lines_initial] at hlies
  cases s with
  | passed above line => cases hitem
  | comment above line more => cases hitem
  | declaration above before first more after =>
    cases hitem
    refine ⟨above, before, first, more, after, rfl, fun l hl => ?_⟩
    rw [hlies]
    exact List.mem_append_left _ (List.mem_reverse.2 hl)

theorem isAttribute_of_scan {text : List Char} {s : Statement}
    (hs : s ∈ (scan text).value.statements) {a : String} (ha : a ∈ s.attributes) :
    Statement.IsAttribute a := by
  obtain ⟨row, d, k, hd, hk⟩ := mem_statementsFrom hs
  obtain ⟨-, -, hattr, -, -⟩ := Declaration.statement?_eq_some hk
  obtain ⟨above, before, first, more, after, rfl, hmem⟩ := exists_declared hd
  rw [hattr] at ha
  change a ∈ (attributesFor above before).texts at ha
  rw [attributesFor] at ha
  split at ha
  · exact isAttribute_of_mem_attributesAbove (fun l hl => newline_not_mem (hmem l hl)) ha
  · cases ha

/-- What a scan finds can be organized. -/
theorem sound_scan (text : List Char) : (scan text).value.Sound where
  written s hs := by
    obtain ⟨row, d, k, hd, hk⟩ := mem_statementsFrom hs
    obtain ⟨-, hread, -⟩ := Declaration.statement?_eq_some hk
    obtain ⟨above, before, first, more, after, rfl, -⟩ := exists_declared hd
    exact grammatical_of_ofText hread
  attributes s hs a ha := (isAttribute_of_scan hs ha).line

end Document

end TidyUse
