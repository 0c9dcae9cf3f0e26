/-!
# White space

* `isSpace c` : `c` is white space, in ASCII or beyond (`U+00A0`, `U+2028`, `U+3000`, ...);
* `isBlank l` : nothing but white space;
* `trimStart`, `trimEnd`, `trim` : a text without the white space at its ends;
* `dropEndWhile p l` : `l` without the longest end on which `p` holds.
-/

namespace TidyUse.Text

/-- White space: tabs, line ends, information separators, and the spaces of every width. -/
def isSpace (c : Char) : Bool :=
  let n := c.toNat
  (0x09 ≤ n && n ≤ 0x0d) || (0x1c ≤ n && n ≤ 0x20) || n == 0x85 || n == 0xa0 || n == 0x1680 ||
    (0x2000 ≤ n && n ≤ 0x200a) || n == 0x2028 || n == 0x2029 || n == 0x202f || n == 0x205f ||
    n == 0x3000

/-- A text of white space only, the empty one included. -/
def isBlank (l : List Char) : Bool := l.all isSpace

/-- The text without the longest end on which `p` holds. -/
def dropEndWhile (p : Char → Bool) (l : List Char) : List Char := (l.reverse.dropWhile p).reverse

def trimStart (l : List Char) : List Char := l.dropWhile isSpace

def trimEnd (l : List Char) : List Char := dropEndWhile isSpace l

def trim (l : List Char) : List Char := trimEnd (trimStart l)

/-- The number of white space characters that open the text. -/
def indent (l : List Char) : Nat := (l.takeWhile isSpace).length

/-- `trim` on strings. -/
def trimmed (s : String) : String := String.ofList (trim s.toList)

theorem dropWhile_eq_nil {p : Char → Bool} {l : List Char} : l.dropWhile p = [] ↔ l.all p := by
  induction l with
  | nil => simp
  | cons c cs ih => cases h : p c <;> simp [h, ih]

theorem all_dropWhile {p : Char → Bool} {l : List Char} : (l.dropWhile p).all p = l.all p := by
  induction l with
  | nil => rfl
  | cons c cs ih => cases h : p c <;> simp [h, ih]

theorem dropEndWhile_eq_nil {p : Char → Bool} {l : List Char} :
    dropEndWhile p l = [] ↔ l.all p := by
  rw [dropEndWhile, List.reverse_eq_nil_iff, dropWhile_eq_nil, List.all_reverse]

/-- Trimming leaves nothing of a blank text, and of no other. -/
theorem trim_eq_nil_iff {l : List Char} : trim l = [] ↔ isBlank l := by
  rw [trim, trimEnd, dropEndWhile_eq_nil, trimStart, all_dropWhile, isBlank]

end TidyUse.Text
