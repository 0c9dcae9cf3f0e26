import TidyUse.Document.Survey
import TidyUse.Trace

/-!
# The imports of a document

A survey tells what stands at the top of a document. From it follow the declarations to organize,
the text to keep, and the region that both stand in.

* `Scan` : all of these;
* `Survey.statements` : the declarations that can be organized, by blocks. A comment, or a
  declaration that is kept, closes a block;
* `Survey.preserved` : the places of the text to keep;
* `Survey.region` : from the first of the declarations to the last;
* `scan` : the scan of a document, with notes on what is kept.
-/

namespace TidyUse.Document

open Text

/-- The imports of a document. -/
structure Scan where
  statements : List Statement
  /-- From the first declaration, attributes included, to the end of the last one. -/
  region : Option Span
  /-- A blank line, code or nothing follows the last declaration. -/
  trailingBlank : Bool
  /-- Comments and declarations that stay as they are. -/
  preserved : List Span

namespace Declaration

/-- The declaration as a member of a block. -/
def statement? (d : Declaration) (block : Nat) : Option Statement :=
  match d.reading with
  | .parsed visibility tree =>
    if d.trailing = .comment then none
    else
      some { tree, visibility, attributes := d.attributes, span := some d.span, block := some block }
  | _ => none

/-- The text to keep, if the declaration stays as it is: with the comment that follows it, if one
does. -/
def kept? (d : Declaration) : Option Span :=
  if d.trailing = .comment then some ⟨d.footprint, d.lineEnd⟩
  else if d.isStatement then none
  else some ⟨d.footprint, d.span.stop⟩

/-- The note on a declaration that cannot be organized. -/
def notes (line : Nat) (d : Declaration) : List Diagnostic :=
  match d.reading with
  | .commented => [.keptCommented line]
  | .malformed reason => [.keptMalformed line reason]
  | .parsed .. => []

end Declaration

namespace Item

def kept? : Item → Option Span
  | comment span => some span
  | declaration _ d => d.kept?

/-- The declaration, if it can be organized. -/
def organized? : Item → Option Declaration
  | comment _ => none
  | declaration _ d => if d.isStatement then some d else none

def notes : Item → List Diagnostic
  | comment _ => []
  | declaration line d => d.notes line

end Item

/-- The declarations to organize, when the next one belongs to `block`, which has members already
or not. -/
def statementsFrom (block : Nat) (hasMembers : Bool) : List Item → List Statement
  | [] => []
  | item :: items =>
    match item.organized?.bind fun d => d.statement? block with
    | some s => s :: statementsFrom block true items
    | none => statementsFrom (if hasMembers then block + 1 else block) false items

/-- Adds text to keep. Text that lies inside of it is kept with it. -/
def preserve (kept : List Span) (span : Span) : List Span :=
  (kept.filter fun s => !span.contains s) ++ [span]

namespace Survey

def organized (s : Survey) : List Declaration := s.items.filterMap Item.organized?

def statements (s : Survey) : List Statement := statementsFrom 0 false s.items

def preserved (s : Survey) : List Span := (s.items.filterMap Item.kept?).foldl preserve []

/-- From the first declaration to organize to the last. -/
def region (s : Survey) : Option Span :=
  match s.organized.head?, s.organized.getLast? with
  | some first, some last => some ⟨first.footprint, last.span.stop⟩
  | _, _ => none

/-- A blank line, code or nothing follows the last declaration to organize. -/
def trailingBlank (lines : List Line) (s : Survey) : Bool :=
  match s.organized.getLast? with
  | none => true
  | some last =>
    last.trailing = .code || (lines[last.span.stop.line.toNat + 1]?.all isBlank)

/-- The notes on all that cannot be organized. -/
def notes (s : Survey) : List Diagnostic :=
  s.items.flatMap Item.notes ++
    match s.ending with
    | .unterminated line => [.unterminated line]
    | _ => []

end Survey

def Scan.ofLines (lines : List Line) : Scan :=
  let s := survey lines
  { statements := s.statements
    region := s.region
    trailingBlank := s.trailingBlank lines
    preserved := s.preserved }

def scan (text : List Char) : Traced Scan :=
  { value := Scan.ofLines (lines text)
    events := (survey (lines text)).notes.map (.note .scanner) }

end TidyUse.Document
