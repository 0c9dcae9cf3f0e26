import TidyUse.Text.Space

/-!
# Lines

A document is the list of its lines, split at `\n` and nowhere else.

* `lines`, `unlines` : a text as lines and back; `unlines_lines`, `lines_unlines`;
* `normalizeNewlines` : every kind of line end as `\n`;
* `splitOnPair a` : a text split at the two-character mark `aa`;
* `clip size n` : how many of `size` members stand before the place `n`.
-/

namespace TidyUse.Text

/-- A line, without its line end. -/
abbrev Line := List Char

/-- The lines of a text. There is always at least one. -/
def lines (text : List Char) : List Line := text.splitOn '\n'

def unlines (ls : List Line) : List Char := ['\n'].intercalate ls

theorem lines_ne_nil (text : List Char) : lines text ≠ [] := List.splitOn_ne_nil _ _

theorem unlines_lines (text : List Char) : unlines (lines text) = text :=
  List.intercalate_splitOn ..

theorem lines_unlines {ls : List Line} (h : ∀ l ∈ ls, '\n' ∉ l) (hne : ls ≠ []) :
    lines (unlines ls) = ls :=
  List.splitOn_intercalate _ h hne

/-- The text with `\r\n` and a lone `\r` read as `\n`. -/
def normalizeNewlines : List Char → List Char
  | '\r' :: '\n' :: cs => '\n' :: normalizeNewlines cs
  | '\r' :: cs => '\n' :: normalizeNewlines cs
  | c :: cs => c :: normalizeNewlines cs
  | [] => []

/-- The text with `\r\n` read as `\n` and a lone `\r` kept. -/
def joinReturns : List Char → List Char
  | '\r' :: '\n' :: cs => '\n' :: joinReturns cs
  | c :: cs => c :: joinReturns cs
  | [] => []

/-- Splits a text at each `aa`, from left to right. -/
def splitOnPair (a : Char) : List Char → List (List Char)
  | [] => [[]]
  | [c] => [[c]]
  | c :: d :: cs =>
    if c = a ∧ d = a then [] :: splitOnPair a cs else (splitOnPair a (d :: cs)).modifyHead (c :: ·)

/-- How many of `size` members stand before a place. A place below zero counts from the end, and
there is none before the first member. -/
def clip (size : Nat) (n : Int) : Nat := if n < 0 then (size + n).toNat else n.toNat

@[simp] theorem clip_natCast (size n : Nat) : clip size (n : Int) = n := by
  simp [clip, Int.not_lt.2 (Int.natCast_nonneg n)]

end TidyUse.Text
