import TidyUse.Text.Lines
import TidyUse.Token.Lexer

/-!
# Where a declaration starts and ends on a line

* `opensUse` : the text reads `use`, possibly behind a visibility;
* `firstUse` : the first column at which a text reads so;
* `findStart` : that column, unless a comment or an open brace stands before it;
* `findEnd` : the column behind the `;` that closes a declaration, and the depth of braces there;
  `findEnd_bounds`.
-/

namespace TidyUse.Document

open Text

def opensComment : List Char → Bool
  | '/' :: '/' :: _ => true
  | '/' :: '*' :: _ => true
  | _ => false

/-- The text holds the start of a comment. -/
def holdsComment : List Char → Bool
  | [] => false
  | c :: cs => opensComment (c :: cs) || holdsComment cs

/-- The text opens with the word `use` and white space. -/
def opensUseWord : List Char → Bool
  | 'u' :: 's' :: 'e' :: c :: _ => isSpace c
  | _ => false

/-- The text behind a group in parentheses, if it opens with one. -/
def skipParens : List Char → List Char
  | '(' :: cs =>
    match cs.dropWhile (· != ')') with
    | _ :: rest => rest
    | [] => '(' :: cs
  | cs => cs

/-- The text opens with `use`, possibly behind `pub` and a restriction in parentheses. -/
def opensUse : List Char → Bool
  | 'p' :: 'u' :: 'b' :: cs => opensUseWord (trimStart (skipParens (trimStart cs)))
  | cs => opensUseWord cs

/-- How a character changes the depth of braces. -/
def braceStep (c : Char) : Int :=
  if c == '\x7b' then 1 else if c == '\x7d' then -1 else 0

def openBraces : List Char → Int
  | [] => 0
  | c :: cs => braceStep c + openBraces cs

/-- The first column at which the rest of a line that starts at `column`, behind a word character or
not, opens with a declaration. -/
def firstUse (column : Nat) (behindWord : Bool) : List Char → Option Nat
  | [] => none
  | c :: cs =>
    if !behindWord && opensUse (c :: cs) then some column
    else firstUse (column + 1) (isWordChar c) cs

/-- The column at which the first declaration at or behind `column` starts. There is none behind a
comment, and none inside of braces that open behind `column`. -/
def findStart (line : Line) (column : Int) : Option Nat :=
  let searched := column.toNat
  let behindWord := (line.take searched).getLast?.any isWordChar
  (firstUse searched behindWord (line.drop searched)).filter fun start =>
    let between := (line.take start).drop (clip line.length column)
    !holdsComment between && decide (openBraces between ≤ 0)

/-- Walks the rest of a line that starts at `column`, with `depth` braces open, to the first `;`
outside of braces and comments. The answer is the column behind it, and the depth at the end. -/
def findEnd (depth : Int) (column : Nat) : List Char → Option Nat × Int
  | [] => (none, depth)
  | '/' :: '/' :: _ => (none, depth)
  | '/' :: '*' :: cs =>
    findEnd depth (column + 2 + (Token.splitComment cs).1.length) (Token.splitComment cs).2
  | c :: cs =>
    if c == ';' && depth == 0 then (some (column + 1), depth)
    else findEnd (depth + braceStep c) (column + 1) cs
termination_by cs => cs.length
decreasing_by
  · have h := congrArg List.length (Token.splitComment_append cs)
    rw [List.length_append] at h
    simp only [List.length_cons]
    omega
  · simp

theorem firstUse_le {column c : Nat} {behindWord : Bool} {cs : List Char}
    (h : firstUse column behindWord cs = some c) : column ≤ c := by
  fun_induction firstUse column behindWord cs with
  | case1 => simp at h
  | case2 => simp at h; omega
  | case3 column _ _ _ _ ih => have := ih h; omega

theorem findStart_le {line : Line} {column c : Nat} (h : findStart line column = some c) :
    column ≤ c := by
  rw [findStart, Option.filter_eq_some_iff] at h
  simpa using firstUse_le h.1

theorem findEnd_bounds {depth : Int} {column c : Nat} {cs : List Char}
    (h : (findEnd depth column cs).1 = some c) : column < c ∧ c ≤ column + cs.length := by
  fun_induction findEnd depth column cs with
  | case1 => simp at h
  | case2 => simp at h
  | case3 depth column cs ih =>
    have hl := congrArg List.length (Token.splitComment_append cs)
    rw [List.length_append] at hl
    have := ih h
    simp only [List.length_cons]
    omega
  | case4 => simp at h; simp only [List.length_cons]; omega
  | case5 depth column c cs _ _ _ ih =>
    have := ih h
    simp only [List.length_cons]
    omega

end TidyUse.Document
