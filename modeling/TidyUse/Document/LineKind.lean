import TidyUse.Document.Boundary

/-!
# Kinds of lines

* `isCommentLine`, `isAttributeLine`, `isInnerAttributeLine` : what a line opens with;
* `commentLines` : how far the comment that opens a line reaches;
* `attributesAbove` : the attributes of the item below some lines;
* `preambleLength` : the lines that a document opens with before anything else.
-/

namespace TidyUse.Document

open Text

def isCommentLine (line : Line) : Bool := opensComment (trimStart line)

/-- The line opens with an attribute of the item below. -/
def isAttributeLine (line : Line) : Bool := "#[".toList.isPrefixOf (trimStart line)

/-- The line opens with an attribute of the whole document. -/
def isInnerAttributeLine (line : Line) : Bool := "#![".toList.isPrefixOf (trimStart line)

def closesComment : List Char → Bool
  | '*' :: '/' :: _ => true
  | _ :: cs => closesComment cs
  | [] => false

/-- How many of the lines below an open comment belong to it, when `text` follows on its line. A
comment that is never closed reaches to the last line. -/
def linesToClose (text : List Char) : List Line → Nat
  | [] => 0
  | line :: below => if closesComment text then 0 else linesToClose line below + 1

/-- How many of the lines below belong to the comment that opens the line, if one does. -/
def commentLines (line : Line) (below : List Line) : Option Nat :=
  match trim line with
  | '/' :: '/' :: _ => some 0
  | '/' :: '*' :: text => some (linesToClose text below)
  | _ => none

/-- Attribute lines, trimmed, from top to bottom, and the height of the topmost of them above the
item. -/
structure Attributes where
  texts : List String
  height : Nat

/-- The attributes of an item below some lines, nearest line first. Blank lines and comments may
stand between them. -/
def attributesAbove (above : List Line) : Attributes :=
  let run := above.takeWhile fun l => isAttributeLine l || isBlank l || isCommentLine l
  let block := run.reverse.dropWhile fun l => !isAttributeLine l
  ⟨(block.filter isAttributeLine).map fun l => String.ofList (trim l), block.length⟩

theorem linesToClose_le (text : List Char) (below : List Line) :
    linesToClose text below ≤ below.length := by
  fun_induction linesToClose text below with
  | case1 => simp
  | case2 => simp
  | case3 _ _ _ _ ih => simpa using ih

/-- How many lines a document opens with that are blank, comments or attributes of the whole. -/
def preambleLength : List Line → Nat
  | [] => 0
  | line :: below =>
    match commentLines line below with
    | some k => k + 1 + preambleLength (below.drop k)
    | none =>
      if isBlank line || isInnerAttributeLine line then 1 + preambleLength below else 0
termination_by lines => lines.length
decreasing_by
  · simp only [List.length_drop, List.length_cons]; omega
  · simp

end TidyUse.Document
