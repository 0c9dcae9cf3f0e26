import TidyUse.Organize

/-!
# What organizing comes to

* `remaining`, `additions` : the declarations that are left, and those that are added;
* `draft?` : the text that is to take the place of the imports, or to be put in where there are none,
  before it is formatted;
* `value_formatBlock_eq_error` : formatting breaks off if a call of the formatter does, and only then;
* `splice` : a document with other imports; `organize_eq_splice` : organizing comes to nothing else.
-/

namespace TidyUse.Document

open Text

def remaining (options : Options) (unused : Option (List Span)) (statements : List Statement) :
    Traced (List Statement) :=
  match options.removeUnused, unused with
  | true, some spans => Unused.filter spans statements
  | _, _ => pure statements

def additions (options : Options) (suggestions : Option (List Suggestion)) :
    Traced (List Statement) :=
  match options.autoImport, suggestions with
  | true, some suggestions => Suggestion.statements suggestions
  | _, _ => pure []

/-! ## Formatting -/

/-- What a call of the formatter comes to. -/
theorem value_format (formatter : Formatter) (program edition text : String) :
    (formatter.format program edition text).run.value =
      if formatter.isAvailable program then
        match formatter.reply ⟨program, edition, text⟩ with
        | .unusable _ => .ok text
        | .broken reason => .error (.brokenCall reason)
        | .finished code output _ =>
          .ok (if code ≠ 0 ∨ output.isEmpty then text else trimmed output ++ "\n")
      else .ok text := by
  unfold Formatter.format
  cases formatter.isAvailable program with
  | false => rfl
  | true =>
    dsimp only [if_true]
    cases formatter.reply ⟨program, edition, text⟩ with
    | unusable reason => rfl
    | broken reason => rfl
    | finished code output errors =>
      dsimp only
      by_cases hfailed : code ≠ 0 ∨ output.isEmpty
      · rw [if_pos hfailed, if_pos hfailed]
        rfl
      · rw [if_neg hfailed, if_neg hfailed]
        rfl

section Format

variable {formatter : Formatter} {options : Options} {block : String}

theorem value_formatBlock_of_off (hoff : options.useFormatter = false) :
    (formatBlock formatter options block).run.value = .ok block := by
  unfold formatBlock
  rw [hoff]
  rfl

theorem value_formatBlock_eq_error {e : Fault} :
    (formatBlock formatter options block).run.value = .error e ↔
      options.useFormatter = true ∧ block.isEmpty = false ∧ formatter.isAvailable "rustfmt" = true ∧
        ∃ reason, formatter.reply ⟨"rustfmt", options.edition, block⟩ = .broken reason ∧
          e = .brokenCall reason := by
  unfold formatBlock
  cases options.useFormatter with
  | false => simp
  | true =>
    cases block.isEmpty with
    | true => simp
    | false =>
      rw [if_pos (by rfl), value_format]
      cases formatter.isAvailable "rustfmt" with
      | false => simp
      | true =>
        cases formatter.reply ⟨"rustfmt", options.edition, block⟩ with
        | unusable reason => simp
        | broken reason => simp [eq_comm]
        | finished code output errors => simp

end Format

/-! ## Whole documents -/

section

variable (formatter : Formatter) (setting : Setting) (unused : Option (List Span))
  (suggestions : Option (List Suggestion)) (text : List Char)

/-- The text that is to take the place of the imports. -/
def newBlock (scan : Scan) : Traced String := do
  let statements ← remaining setting.options unused scan.statements
  let added ← additions setting.options suggestions
  renderRegion setting text scan statements added

/-- The text that is to be put into a document without imports. -/
def addedBlock : Traced String := do
  let added ← additions setting.options suggestions
  renderStatements setting added

/-- The text that is to be put into a document, unless the document stays as it is. -/
def draft? : Option String :=
  match (scan text).value.region with
  | some _ => some (newBlock setting unused suggestions text (scan text).value).value
  | none =>
    if (additions setting.options suggestions).value.isEmpty then none
    else some (addedBlock setting suggestions).value

/-- A document with a text in the place of its imports. -/
def splice (block : List Char) : List Char :=
  match (scan text).value.region with
  | some r => replaceRegion text r block (scan text).value.trailingBlank
  | none => (insertBlock text block).value

theorem organize_eq : organize formatter setting unused suggestions text = (do
    let scan ← scan text
    let statements ← remaining setting.options unused scan.statements
    let added ← additions setting.options suggestions
    match scan.region with
    | none =>
      if added.isEmpty then return text
      let block ← renderStatements setting added
      let block ← formatBlock formatter setting.options block
      insertBlock text block.toList
    | some region =>
      let block ← renderRegion setting text scan statements added
      let block ← formatBlock formatter setting.options block
      return replaceRegion text region block.toList scan.trailingBlank) := by
  rw [organize]
  unfold remaining additions
  cases setting.options.removeUnused <;> cases unused <;> cases setting.options.autoImport <;>
    cases suggestions <;> rfl

/-- An organized document holds the formatted draft. -/
theorem organize_eq_splice : (organize formatter setting unused suggestions text).run.value =
    match draft? setting unused suggestions text with
    | none => .ok text
    | some block => (formatBlock formatter setting.options block).run.value.map fun b =>
        splice text b.toList := by
  rw [organize_eq]
  unfold draft? splice
  simp only [Guarded.value_lift_bind]
  cases (scan text).value.region with
  | some r => exact Guarded.value_bind_pure _ _
  | none =>
    dsimp only
    split
    · rfl
    · exact Guarded.value_bind_lift _ _

variable {formatter} {setting} {unused} {suggestions} {text}

theorem organize_eq_error {e : Fault} :
    (organize formatter setting unused suggestions text).run.value = .error e ↔
      ∃ block reason, draft? setting unused suggestions text = some block ∧
        setting.options.useFormatter = true ∧ block.isEmpty = false ∧
        formatter.isAvailable "rustfmt" = true ∧
        formatter.reply ⟨"rustfmt", setting.options.edition, block⟩ = .broken reason ∧
        e = .brokenCall reason := by
  rw [organize_eq_splice]
  cases draft? setting unused suggestions text with
  | none => simp
  | some block =>
    dsimp only
    have hmap : ∀ {x : Except Fault String} {f : String → List Char},
        x.map f = .error e ↔ x = .error e := by
      intro x f
      cases x <;> simp [Except.map]
    rw [hmap, value_formatBlock_eq_error]
    simp

theorem organize_eq_ok {out : List Char} :
    (organize formatter setting unused suggestions text).run.value = .ok out ↔
      draft? setting unused suggestions text = none ∧ out = text ∨
        ∃ block formatted, draft? setting unused suggestions text = some block ∧
          (formatBlock formatter setting.options block).run.value = .ok formatted ∧
          out = splice text formatted.toList := by
  rw [organize_eq_splice]
  cases draft? setting unused suggestions text with
  | none => simp [eq_comm]
  | some block =>
    cases hformat : (formatBlock formatter setting.options block).run.value with
    | error e => simp [hformat, Except.map]
    | ok formatted => simp [hformat, Except.map, eq_comm]

variable (formatter unused suggestions)

/-- The formatted new imports take the place of the old ones. -/
theorem organize_eq_region {r : Span} (hr : (scan text).value.region = some r) :
    (organize formatter setting unused suggestions text).run.value =
      (formatBlock formatter setting.options
        (newBlock setting unused suggestions text (scan text).value).value).run.value.map
          fun b => replaceRegion text r b.toList (scan text).value.trailingBlank := by
  rw [organize_eq_splice]
  unfold draft? splice
  rw [hr]

/-- Without the formatter, the new imports take the place of the old ones as they are. -/
theorem organize_of_off (hoff : setting.options.useFormatter = false) {r : Span}
    (hr : (scan text).value.region = some r) :
    (organize formatter setting unused suggestions text).run.value =
      .ok (replaceRegion text r
        (newBlock setting unused suggestions text (scan text).value).value.toList
        (scan text).value.trailingBlank) := by
  rw [organize_eq_region formatter unused suggestions hr, value_formatBlock_of_off hoff]
  rfl

theorem events_organize {r : Span} (hr : (scan text).value.region = some r) :
    (organize formatter setting unused suggestions text).run.events =
      (scan text).events ++ ((newBlock setting unused suggestions text (scan text).value).events ++
        (formatBlock formatter setting.options
          (newBlock setting unused suggestions text (scan text).value).value).run.events) := by
  rw [organize_eq]
  simp only [Guarded.events_lift_bind, hr, Guarded.events_bind_pure, newBlock, Traced.events_bind,
    Traced.value_bind, List.append_assoc]

end

end TidyUse.Document
