import TidyUse.Document.LineKind
import TidyUse.Statement.Parser

/-!
# Surveying a document

A survey walks the lines from the top, and lists the comments and the use declarations it meets,
until it meets other code.

* `Cursor` : a line of a document, with the lines above and below it;
* `Declaration` : a use declaration as it stands in the document, whether it can be read or not;
* `Item`, `Ending`, `Survey` : what is found, in order, and why the walk ends;
* `survey` : the walk.
-/

namespace TidyUse.Document

open Text

/-! ## Cursors -/

/-- How many characters some lines have, line ends included. -/
def size : List Line → Nat
  | [] => 0
  | l :: ls => l.length + 1 + size ls

theorem size_cons (l : Line) (ls : List Line) : size (l :: ls) = l.length + 1 + size ls := rfl

/-- A line of a document. -/
structure Cursor where
  /-- The lines above, nearest first. -/
  above : List Line
  line : Line
  below : List Line

namespace Cursor

def row (cur : Cursor) : Nat := cur.above.length

/-- The cursor some lines further down, if the document has so many. -/
def down (cur : Cursor) : Nat → Option Cursor
  | 0 => some cur
  | k + 1 =>
    match cur.below with
    | [] => none
    | line :: below => down ⟨cur.line :: cur.above, line, below⟩ k

def place (cur : Cursor) (column : Nat) : Position := ⟨cur.row, column⟩

def placeBelow (cur : Cursor) (k column : Nat) : Position := ⟨(cur.row + k : Nat), column⟩

/-- The line some lines further down, empty beyond the end. -/
def lineBelow (cur : Cursor) (k : Nat) : Line := (cur.line :: cur.below).getD k []

/-- Further down, less is left. -/
theorem size_down {cur next : Cursor} {k : Nat} (h : cur.down k = some next) (hk : 0 < k) :
    size next.below + next.line.length < size cur.below := by
  induction k generalizing cur with
  | zero => omega
  | succ k ih =>
    unfold down at h
    split at h
    · simp at h
    · rename_i line below hb
      rw [hb, size_cons]
      cases k with
      | zero =>
        rw [down, Option.some.injEq] at h
        simp only [← h]
        omega
      | succ k =>
        have := ih h (Nat.succ_pos k)
        simp only at this
        omega

end Cursor

/-! ## Declarations -/

inductive Reading
  /-- It holds a comment and is kept as it is. -/
  | commented
  | malformed (reason : ParseError)
  | parsed (visibility : Option String) (tree : UseTree)

inductive Trailing
  /-- Nothing, or another declaration. -/
  | nothing
  | comment
  | code
deriving DecidableEq

structure Declaration where
  /-- From the first character to the `;`, visibility included. -/
  span : Span
  /-- The start of its first attribute, or else its own. -/
  footprint : Position
  /-- The end of its last line. -/
  lineEnd : Position
  attributes : List String
  reading : Reading
  trailing : Trailing

/-- Reads the text of a declaration that starts at `base`. -/
def Reading.ofText (base : Position) (text : List Char) : Reading :=
  if holdsComment text then .commented
  else
    match ((Parser.declaration base).runOn (Token.tokenize text)).1 with
    | .ok (visibility, tree) => .parsed visibility tree
    | .error reason => .malformed reason

def Trailing.ofRest (rest : List Char) : Trailing :=
  if isBlank rest then .nothing
  else if isCommentLine rest then .comment
  else if findStart rest 0 = some (indent rest) then .nothing
  else .code

/-- Looks for the end of a declaration on the following lines, with `depth` braces open: how many
lines down it is, and in which column. -/
def endBelow (depth : Int) : List Line → Option (Nat × Nat)
  | [] => none
  | line :: below =>
    match findEnd depth 0 line with
    | (some column, _) => some (1, column)
    | (none, depth) => (endBelow depth below).map fun e => (e.1 + 1, e.2)

namespace Cursor

/-- The end of the declaration that starts at a column: how many lines down, and in which column. -/
def declarationEnd (cur : Cursor) (start : Nat) : Option (Nat × Nat) :=
  match findEnd 0 start (cur.line.drop start) with
  | (some column, _) => some (0, column)
  | (none, depth) => endBelow depth cur.below

/-- The text from a column of the line to a column of a line further down. -/
def textTo (cur : Cursor) (start : Nat) : (lines column : Nat) → List Char
  | 0, column => (cur.line.take column).drop start
  | k + 1, column =>
    unlines (cur.line.drop start :: (cur.below.take k ++ [(cur.lineBelow (k + 1)).take column]))

/-- The declaration between a column of the line and a column of a line further down. Attributes
belong to a declaration only if it is the first thing on its line. -/
def declaration (cur : Cursor) (start lines column : Nat) : Declaration :=
  let attributes :=
    if isBlank (cur.line.take start) then attributesAbove cur.above else ⟨[], 0⟩
  let last := cur.lineBelow lines
  { span := ⟨cur.place start, cur.placeBelow lines column⟩
    footprint :=
      if attributes.height = 0 then cur.place start
      else
        let top := cur.above.getD (attributes.height - 1) []
        ⟨(cur.row - attributes.height : Nat), indent top⟩
    lineEnd := cur.placeBelow lines last.length
    attributes := attributes.texts
    reading := Reading.ofText (cur.place start) (cur.textTo start lines column)
    trailing := Trailing.ofRest (last.drop column) }

theorem endBelow_pos {depth : Int} {below : List Line} {e : Nat × Nat}
    (h : endBelow depth below = some e) : 0 < e.1 := by
  cases below with
  | nil => simp [endBelow] at h
  | cons line below =>
    unfold endBelow at h
    split at h
    · simp at h; simp [← h]
    · simp only [Option.map_eq_some_iff] at h
      obtain ⟨_, _, rfl⟩ := h
      simp

theorem declarationEnd_bounds {cur : Cursor} {start : Nat} {e : Nat × Nat}
    (h : cur.declarationEnd start = some e) :
    0 < e.1 ∨ start < e.2 ∧ e.2 ≤ start + (cur.line.drop start).length := by
  unfold declarationEnd at h
  split at h
  · rename_i column depth hf
    simp only [Option.some.injEq] at h
    have := findEnd_bounds (show (findEnd 0 start (cur.line.drop start)).1 = some column by rw [hf])
    exact Or.inr (by simpa [← h] using this)
  · exact Or.inl (endBelow_pos h)

end Cursor

/-- The declaration is understood, and nothing but code or white space follows it. -/
def Declaration.isStatement (d : Declaration) : Bool :=
  match d.reading with
  | .parsed .. => d.trailing != .comment
  | _ => false

/-! ## The walk -/

/-- What a survey meets. -/
inductive Item
  | comment (span : Span)
  | declaration (line : Nat) (d : Declaration)

inductive Ending
  /-- There are no more lines. -/
  | exhausted
  /-- Other code follows a declaration. -/
  | code
  /-- The declaration on this line has no end. -/
  | unterminated (line : Nat)
deriving DecidableEq

structure Survey where
  items : List Item
  ending : Ending

/-- The survey with one more item in front. -/
def Survey.cons (item : Item) (s : Survey) : Survey := { s with items := item :: s.items }

inductive Sight
  /-- Nothing of interest: go to the next line. -/
  | nothing
  /-- A comment that reaches some lines down. -/
  | comment (lines : Nat)
  /-- A declaration that starts at a column. -/
  | start (column : Nat)
  /-- Code that ends the imports. -/
  | code

/-- Looks at a line from a column on. Behind the first column another declaration on the line may
follow; at the first column, code ends the imports if a declaration has been found before. -/
def Cursor.sight (cur : Cursor) (found : Bool) (column : Nat) : Sight :=
  if column = 0 then
    if isBlank cur.line then .nothing
    else
      match commentLines cur.line cur.below with
      | some k => .comment k
      | none =>
        if isAttributeLine cur.line then .nothing
        else
          match findStart cur.line 0 with
          | none => if found then .code else .nothing
          | some start =>
            if found && !isBlank (cur.line.take start) then .code else .start start
  else
    match findStart cur.line column with
    | none => .nothing
    | some start => .start start

theorem Cursor.sight_start {cur : Cursor} {found : Bool} {column start : Nat}
    (h : cur.sight found column = .start start) : column ≤ start := by
  unfold sight at h
  split at h
  · omega
  · split at h
    · simp at h
    · rename_i hs
      simp only [Sight.start.injEq] at h
      exact h ▸ findStart_le hs

set_option linter.unusedVariables false in
/-- The survey from a column of a line on, when a declaration has or has not been found before. -/
def surveyFrom (found : Bool) (column : Nat) (cur : Cursor) : Survey :=
  match hs : cur.sight found column with
  | .code => ⟨[], .code⟩
  | .nothing =>
    match hd : cur.down 1 with
    | none => ⟨[], .exhausted⟩
    | some next => surveyFrom found 0 next
  | .comment k =>
    let span : Span := ⟨cur.place (indent cur.line), cur.placeBelow k (cur.lineBelow k).length⟩
    match hd : cur.down (k + 1) with
    | none => ⟨[.comment span], .exhausted⟩
    | some next => (surveyFrom found 0 next).cons (.comment span)
  | .start start =>
    match he : cur.declarationEnd start with
    | none => ⟨[], .unterminated cur.row⟩
    | some e =>
      let d := cur.declaration start e.1 e.2
      let item := Item.declaration cur.row d
      match d.trailing with
      | .code => ⟨[item], .code⟩
      | .comment =>
        match hd : cur.down (e.1 + 1) with
        | none => ⟨[item], .exhausted⟩
        | some next => (surveyFrom found 0 next).cons item
      | .nothing =>
        match hd : cur.down e.1 with
        | none => ⟨[item], .exhausted⟩
        | some next => (surveyFrom (found || d.isStatement) e.2 next).cons item
termination_by size cur.below + (cur.line.length - column)
decreasing_by
  · have := Cursor.size_down hd Nat.one_pos
    omega
  · have := Cursor.size_down hd (Nat.succ_pos k)
    omega
  · have := Cursor.size_down hd (Nat.succ_pos e.1)
    omega
  · have hl := Cursor.sight_start hs
    by_cases h0 : e.1 = 0
    · have h := (Cursor.declarationEnd_bounds he).resolve_left (by omega)
      rw [h0, Cursor.down, Option.some.injEq] at hd
      subst hd
      rw [List.length_drop] at h
      omega
    · have := Cursor.size_down hd (Nat.pos_of_ne_zero h0)
      omega

def survey (lines : List Line) : Survey :=
  let k := preambleLength lines
  match lines.drop k with
  | [] => ⟨[], .exhausted⟩
  | line :: below => surveyFrom false 0 ⟨(lines.take k).reverse, line, below⟩

end TidyUse.Document
