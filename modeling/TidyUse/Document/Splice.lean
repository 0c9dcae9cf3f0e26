import TidyUse.Document.Scan

/-!
# Putting imports into a document

* `charsBefore`, `excerpt` : positions and spans in the text;
* `insertLine` : the line at which imports go into a document without any;
* `insertBlock` : a document with a block of imports put there;
* `replaceRegion` : a document with its imports replaced by a block.
-/

namespace TidyUse.Document

open Text

/-- A position as a place in the text. -/
def offset (lines : List Line) (p : Position) : Int :=
  size (lines.take (clip lines.length p.line)) + p.column

def charsBefore (text : List Char) (p : Position) : Nat :=
  clip text.length (offset (lines text) p)

def excerpt (text : List Char) (s : Span) : List Char :=
  (text.take (charsBefore text s.stop)).drop (charsBefore text s.start)

/-- The line of a position, cut in two there. -/
def lineAt (text : List Char) (p : Position) : Line × Line :=
  let ls := lines text
  let line := ls.getD (clip ls.length p.line) []
  line.splitAt (clip line.length p.column)

def opensWith (words : List String) (text : List Char) : Bool :=
  words.any fun w => w.toList.isPrefixOf text

/-- `insertLine` on the lines from `row` on, when imports would go to line `best` so far. -/
def insertLineFrom (row best : Nat) : List Line → Nat
  | [] => best
  | line :: below =>
    let words := trim line
    if opensWith ["#![", "//!", "extern crate"] words then
      insertLineFrom (row + 1) (row + 1) below
    else if isBlank line || opensWith ["//"] words then
      insertLineFrom (row + 1) (if best = row then row + 1 else best) below
    else if opensWith ["use ", "mod ", "pub use ", "pub mod "] words then row
    else if opensWith ["#["] words then insertLineFrom (row + 1) best below
    else best

/-- The line at which imports go into a document without any: below the attributes and comments of
the whole and the `extern crate` lines, and above modules and other code. -/
def insertLine (lines : List Line) : Nat := insertLineFrom 0 0 lines

def isWritten (line : Option Line) : Bool := line.any fun l => !isBlank l

/-- A block of lines with blank lines around it where they are needed to set it off. -/
def setOff (before after : Option Line) (block : List Line) : List Line :=
  (if isWritten before then [[]] else []) ++ block ++ (if isWritten after then [[]] else [])

def dropLineEnds (text : List Char) : List Char := dropEndWhile (· == '\n') text

/-- A document without imports, with a block of them put in. -/
def insertBlock (text block : List Char) : Traced (List Char) :=
  if isBlank text then return dropLineEnds block ++ ['\n']
  else do
    let ls := lines text
    let row := min (insertLine ls) ls.length
    let above := ls.take row
    let below := ls.drop row
    Traced.note .organizer (.insertedAt row)
    return unlines (above ++ setOff above.getLast? below.head? (lines (dropLineEnds block)) ++ below)

/-- A space or a tab. -/
def isGap (c : Char) : Bool := c == ' ' || c == '\t'

/-- Joins what stands before and behind imports that are gone, without the line that they leave
empty, nor a second empty line. -/
def closeGap (head tail : List Char) : List Char :=
  let head := dropEndWhile isGap head
  match tail with
  | '\n' :: '\n' :: rest =>
    if head.isEmpty || "\n\n".toList.isSuffixOf head then head ++ rest else head ++ '\n' :: rest
  | '\n' :: rest => head ++ rest
  | _ => head ++ tail

/-- A document with its imports replaced by a block. Code on the same line, before or behind them,
gets a line of its own. -/
def replaceRegion (text : List Char) (region : Span) (block : List Char) (trailingBlank : Bool) :
    List Char :=
  let head := text.take (charsBefore text region.start)
  let tail := text.drop (charsBefore text region.stop)
  let block := dropLineEnds block
  let codeBefore := !isBlank (lineAt text region.start).1
  let codeAfter := !isBlank (lineAt text region.stop).2
  if block.isEmpty then
    if codeBefore || codeAfter then head ++ tail else closeGap head tail
  else
    let head := if codeBefore then dropEndWhile isGap head ++ ['\n', '\n'] else head
    let tail :=
      if codeAfter then '\n' :: '\n' :: tail.dropWhile isGap
      else if trailingBlank then tail
      else '\n' :: tail
    head ++ block ++ tail

end TidyUse.Document
