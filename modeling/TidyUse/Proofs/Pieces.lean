import TidyUse.Proofs.Outcome
import TidyUse.Proofs.Sections

/-!
# Imports in pieces

The new imports of a document are pieces of text in a row: text that is kept, and the declarations
of a block.

* `Text.Strung` : texts that stand in another one, each behind the one before;
* `Text.Filled` : a text that does not end with a line end;
* `Piece`, `pieces` : the pieces of the new imports;
* `strung_organize` : they stand in the organized document, in this order.
-/

namespace TidyUse

namespace Text

/-! ## Texts in a row -/

/-- Texts that stand in another one, each behind the one before. -/
def Strung : List (List Char) → List Char → Prop
  | [], _ => True
  | t :: ts, text => ∃ before after, text = before ++ t ++ after ∧ Strung ts after

namespace Strung

variable {ts us : List (List Char)} {x y : List Char}

theorem append_left (h : Strung ts x) (z : List Char) : Strung ts (z ++ x) := by
  cases ts with
  | nil => trivial
  | cons t ts =>
    obtain ⟨before, after, rfl, hafter⟩ := h
    exact ⟨z ++ before, after, by simp only [List.append_assoc], hafter⟩

theorem append (h : Strung ts x) (h' : Strung us y) : Strung (ts ++ us) (x ++ y) := by
  induction ts generalizing x with
  | nil => exact h'.append_left x
  | cons t ts ih =>
    obtain ⟨before, after, rfl, hafter⟩ := h
    exact ⟨before, after ++ y, by simp only [List.append_assoc], ih hafter⟩

theorem append_right (h : Strung ts x) (z : List Char) : Strung ts (x ++ z) := by
  have hall : Strung (ts ++ []) (x ++ z) := h.append trivial
  rwa [List.append_nil] at hall

theorem mono (h : Strung ts x) (hx : x <:+: y) : Strung ts y := by
  obtain ⟨before, after, rfl⟩ := hx
  exact (h.append_left before).append_right after

theorem singleton (t : List Char) : Strung [t] t := ⟨[], [], by simp, trivial⟩

/-- A text without characters may stand at the end. -/
theorem concat_nil (h : Strung ts x) : Strung (ts ++ [[]]) x := by
  have hall := h.append (singleton [])
  rwa [List.append_nil] at hall

/-- Texts in parts stand in the joined parts, if those of each part stand in it. -/
theorem flatMap_intercalate {α : Type} (sep : List Char) {f g : α → List (List Char)} {as : List α}
    (h : ∀ a ∈ as, Strung (f a) (sep.intercalate (g a))) :
    Strung (as.flatMap f) (sep.intercalate (as.flatMap g)) := by
  induction as with
  | nil => trivial
  | cons a as ih =>
    have hfirst := h a List.mem_cons_self
    have hrest := ih fun b hb => h b (List.mem_cons_of_mem _ hb)
    rw [List.flatMap_cons, List.flatMap_cons]
    rcases eq_or_ne (g a) [] with hnil | hne
    · rw [hnil] at hfirst ⊢
      exact hfirst.append hrest
    · rcases eq_or_ne (as.flatMap g) [] with hnil' | hne'
      · rw [hnil'] at hrest ⊢
        rw [List.append_nil]
        have hall := hfirst.append hrest
        rwa [show sep.intercalate [] = [] from rfl, List.append_nil] at hall
      · rw [intercalate_append sep hne hne', List.append_assoc]
        exact hfirst.append (hrest.append_left sep)

theorem intercalate (sep : List Char) (ts : List (List Char)) : Strung ts (sep.intercalate ts) := by
  have hall : Strung (ts.flatMap fun t => [t]) (sep.intercalate (ts.flatMap fun t => [t])) :=
    flatMap_intercalate sep fun t _ => by
      rw [List.intercalate_singleton]
      exact singleton t
  rwa [List.flatMap_singleton'] at hall

end Strung

/-- A text that does not end with a line end. -/
def Filled (x : List Char) : Prop := ∃ z c, x = z ++ [c] ∧ c ≠ '\n'

/-- Joined texts do not end with a line end if the last of them does not. -/
theorem Filled.intercalate (sep : List Char) {ts : List (List Char)} (hne : ts ≠ [])
    (h : ∀ t ∈ ts, Filled t) : Filled (sep.intercalate ts) := by
  obtain ⟨ts, t, rfl⟩ := (List.eq_nil_or_concat' ts).resolve_left hne
  obtain ⟨y, c, rfl, hc⟩ := h t (by simp)
  obtain ⟨z, hz⟩ := intercalate_ends sep ts y c
  exact ⟨z, c, hz, hc⟩

end Text

namespace Statement

open Text

theorem filled_format (s : Statement) : Filled s.format.toList := by
  obtain ⟨z, hz⟩ := intercalate_ends "\n".toList (s.attributes.map String.toList)
    (s.visibilityWords ++ "use " ++ s.tree.sort.format "").toList ';'
  refine ⟨z, ';', ?_, by decide⟩
  rw [← hz, format, String.toList_intercalate, List.map_append, List.map_singleton,
    String.toList_append]
  rfl

end Statement

namespace Document

open Text

/-- What the new imports of a document are made of. -/
inductive Piece
  | kept (span : Span)
  | body (statements : List Statement)

namespace Piece

def kept? : Piece → Option Span
  | kept span => some span
  | body _ => none

def statements : Piece → List Statement
  | kept _ => []
  | body statements => statements

def text (setting : Setting) (source : List Char) : Piece → List Char
  | kept span => excerpt source span
  | body statements => (renderStatements setting statements).value.toList

end Piece

section Pieces

variable (scan : Scan) (statements added : List Statement)

def Scan.blocks : List (Option Int) := distinct (scan.statements.map Statement.block)

/-- What is rendered as a block. The added declarations join the first one. -/
def blockStatements (block : Option Int) : List Statement :=
  (statements.filter fun s => s.block == block) ++
    if scan.blocks.head? == some block then added else []

/-- The pieces of a block: the text kept above it, and its declarations. -/
def blockPieces (block : Option Int) : List Piece :=
  (headerSpans scan block).map .kept ++ [.body (blockStatements scan statements added block)]

def pieces : List Piece := scan.blocks.flatMap (blockPieces scan statements added)

end Pieces

/-! ## Pieces in the new imports -/

section Render

variable (setting : Setting) {text : List Char} {scan : Scan} (statements added : List Statement)

theorem value_renderRegion :
    (renderRegion setting text scan statements added).value =
      "\n\n".intercalate (scan.blocks.flatMap fun block =>
        (renderBlock setting ((headerSpans scan block).map fun s => String.ofList (excerpt text s))
          (blockStatements scan statements added block)).value) := by
  have hblocks : ∀ block, ((blockHeaders text scan).lookup block).getD [] =
      (headerSpans scan block).map fun s => String.ofList (excerpt text s) :=
    lookup_blockHeaders text scan
  rw [renderRegion]
  simp only [Traced.value_bind, Traced.value_flatMap, hblocks]
  split <;> rfl

/-- The declarations of a block as text do not end with a line end. -/
theorem filled_renderStatements (ss : List Statement)
    (h : (renderStatements setting ss).value.isEmpty = false) :
    Filled (renderStatements setting ss).value.toList := by
  rw [renderStatements] at h ⊢
  split
  · rename_i hgroup
    rw [if_pos hgroup] at h
    simp only [Traced.value_bind, Traced.value_pure, String.toList_ofList] at h ⊢
    rcases dropEndWhile_ends (· == '\n')
      (Group.render (Group.organize setting.log setting.deps ss).value).toList with hnil | hends
    · rw [dropLineEnds, hnil] at h
      cases h
    · obtain ⟨z, c, hz, hc⟩ := hends
      exact ⟨z, c, hz, by simpa using hc⟩
  · rename_i hgroup
    rw [if_neg hgroup] at h
    simp only [Traced.value_pure] at h ⊢
    rw [String.toList_intercalate]
    refine Filled.intercalate _ ?_ ?_
    · intro hnil
      rw [List.map_map, List.map_eq_nil_iff] at hnil
      rw [hnil] at h
      cases h
    · intro t ht
      rw [List.map_map] at ht
      obtain ⟨s, -, rfl⟩ := List.mem_map.1 ht
      exact s.filled_format

/-- The pieces of a block stand in its text, and this does not end with a line end. -/
theorem renderBlock_pieces {headers : List (List Char)} (hheaders : ∀ t ∈ headers, Filled t)
    (ss : List Statement) :
    Strung (headers ++ [(renderStatements setting ss).value.toList])
        ("\n\n".toList.intercalate
          ((renderBlock setting (headers.map String.ofList) ss).value.map String.toList)) ∧
      ∀ t ∈ (renderBlock setting (headers.map String.ofList) ss).value, Filled t.toList := by
  rw [renderBlock]
  simp only [Traced.value_bind, Traced.value_pure]
  generalize hbody : (renderStatements setting ss).value = body
  have htexts : (headers.map String.ofList).map String.toList = headers := by
    rw [List.map_map]
    exact List.map_id'' (fun _ => String.toList_ofList) headers
  have hjoin : ∀ parts : List String, ("\n".intercalate parts).toList =
      ['\n'].intercalate (parts.map String.toList) := fun parts => String.toList_intercalate
  cases hempty : body.isEmpty with
  | true =>
    have hnil : body.toList = [] := by
      rw [String.isEmpty_iff.1 hempty]
      rfl
    rw [hnil, if_pos rfl]
    split
    · rename_i hparts
      rw [List.isEmpty_iff, List.map_eq_nil_iff] at hparts
      rw [hparts]
      exact ⟨Strung.singleton [], fun t ht => absurd ht List.not_mem_nil⟩
    · rename_i hparts
      rw [List.isEmpty_iff, List.map_eq_nil_iff] at hparts
      rw [List.map_singleton, List.intercalate_singleton]
      refine ⟨?_, fun t ht => ?_⟩
      · rw [hjoin, htexts]
        exact (Strung.intercalate _ headers).concat_nil
      · rw [List.mem_singleton.1 ht, hjoin, htexts]
        exact Filled.intercalate _ hparts hheaders
  | false =>
    have hfilled := filled_renderStatements setting ss (by rw [hbody, hempty])
    rw [hbody] at hfilled
    rw [if_neg Bool.false_ne_true, if_neg (by simp), List.map_singleton,
      List.intercalate_singleton]
    have hparts : (headers.map String.ofList ++ [body]).map String.toList =
        headers ++ [body.toList] := by
      rw [List.map_append, htexts, List.map_singleton]
    refine ⟨?_, fun t ht => ?_⟩
    · rw [hjoin, hparts]
      exact Strung.intercalate _ _
    · rw [List.mem_singleton.1 ht, hjoin, hparts]
      refine Filled.intercalate _ (by simp) fun t ht => ?_
      rcases List.mem_append.1 ht with ht | ht
      · exact hheaders t ht
      · rw [List.mem_singleton.1 ht]
        exact hfilled

/-- The pieces stand in the new imports, in order. -/
theorem strung_renderRegion
    (hkept : ∀ block, ∀ s ∈ headerSpans scan block, Filled (excerpt text s)) :
    Strung ((pieces scan statements added).map (Piece.text setting text))
      (dropLineEnds (renderRegion setting text scan statements added).value.toList) := by
  have hheaders : ∀ block, ∀ t ∈ (headerSpans scan block).map (excerpt text), Filled t := by
    intro block t ht
    obtain ⟨s, hs, rfl⟩ := List.mem_map.1 ht
    exact hkept block s hs
  have hblock := fun block => renderBlock_pieces setting (hheaders block)
    (blockStatements scan statements added block)
  have hvalue : (renderRegion setting text scan statements added).value.toList =
      "\n\n".toList.intercalate (scan.blocks.flatMap fun block => (renderBlock setting
        (((headerSpans scan block).map (excerpt text)).map String.ofList)
          (blockStatements scan statements added block)).value.map String.toList) := by
    rw [value_renderRegion, String.toList_intercalate, List.map_flatMap]
    simp only [List.map_map]
    rfl
  have hends : dropLineEnds (renderRegion setting text scan statements added).value.toList =
      (renderRegion setting text scan statements added).value.toList := by
    rw [hvalue]
    rcases eq_or_ne (scan.blocks.flatMap fun block => (renderBlock setting
        (((headerSpans scan block).map (excerpt text)).map String.ofList)
          (blockStatements scan statements added block)).value.map String.toList) [] with hnil | hne
    · rw [hnil]
      rfl
    · obtain ⟨z, c, hz, hc⟩ := Filled.intercalate "\n\n".toList hne fun t ht => by
        obtain ⟨block, -, ht⟩ := List.mem_flatMap.1 ht
        obtain ⟨u, hu, rfl⟩ := List.mem_map.1 ht
        exact (hblock block).2 u hu
      rw [hz, dropLineEnds, dropEndWhile_concat (by simpa using hc)]
  rw [hends, hvalue, pieces, List.map_flatMap]
  refine Strung.flatMap_intercalate _ fun block _ => ?_
  have hpieces := (hblock block).1
  rw [blockPieces, List.map_append, List.map_map, List.map_singleton]
  exact hpieces

end Render

/-- A block stands in the document in which it takes the place of the imports. -/
theorem infix_replaceRegion (text : List Char) (r : Span) (block : List Char)
    (trailingBlank : Bool) : dropLineEnds block <:+: replaceRegion text r block trailingBlank := by
  unfold replaceRegion
  dsimp only
  split
  · rename_i hempty
    rw [List.isEmpty_iff.1 hempty]
    exact List.nil_infix
  · exact ⟨_, _, rfl⟩

/-- The pieces of the new imports stand in the organized document, in order. -/
theorem strung_organize (formatter : Formatter) {setting : Setting}
    (hoff : setting.options.useFormatter = false) (unused : Option (List Span))
    (suggestions : Option (List Suggestion)) {text : List Char} {r : Span}
    (hr : (scan text).value.region = some r)
    (hkept : ∀ block, ∀ s ∈ headerSpans (scan text).value block, Filled (excerpt text s)) :
    ∃ out, (organize formatter setting unused suggestions text).run.value = .ok out ∧
      Strung
        ((pieces (scan text).value
          (remaining setting.options unused (scan text).value.statements).value
          (additions setting.options suggestions).value).map (Piece.text setting text)) out := by
  refine ⟨_, organize_of_off formatter unused suggestions hoff hr, ?_⟩
  exact (strung_renderRegion setting _ _ hkept).mono (infix_replaceRegion _ _ _ _)

end Document

end TidyUse
