import TidyUse.Toml.Scalar

/-!
# Strings of a TOML document

* `basic` : a string in double quotes, with escapes;
* `literal` : a string in single quotes, without;
* `multiBasic`, `multiLiteral` : the same over several lines, between three quotes.

Each reader starts behind the opening quotes, and gives the string and the text behind it.
-/

namespace TidyUse.Toml

/-- A control character that may not stand in a string or a comment on one line. -/
def isIllegal (c : Char) : Bool := (c.toNat < 0x20 || c.toNat == 0x7f) && c != '\t'

/-- A control character that may not stand in a string over several lines. -/
def isIllegalInLines (c : Char) : Bool := isIllegal c && c != '\n'

/-- A space or a tab. -/
def isBlankChar (c : Char) : Bool := c == ' ' || c == '\t'

/-- A space, a tab or a line end. -/
def isFillerChar (c : Char) : Bool := isBlankChar c || c == '\n'

def hexValue (c : Char) : Nat :=
  if c.isDigit then c.toNat - '0'.toNat
  else if 'a' ≤ c then c.toNat - 'a'.toNat + 10
  else c.toNat - 'A'.toNat + 10

/-- A character given by digits in base 16, as many as `count`. -/
def hexChar (count : Nat) (cs : List Char) : Option (Char × List Char) :=
  let digits := cs.take count
  let code := digits.foldl (fun n d => n * 16 + hexValue d) 0
  if digits.length = count && digits.all isHexDigit && decide code.isValidChar then
    some (Char.ofNat code, cs.drop count)
  else none

/-- The text behind a backslash at the end of a line: the white space up to the next line that has
any other, when `cs` follows the backslash. -/
def continueLine (cs : List Char) : Option (List Char) :=
  match cs.dropWhile isBlankChar with
  | '\n' :: rest => some (rest.dropWhile isFillerChar)
  | [] => some []
  | _ => none

/-- What an escape stands for, when `cs` follows the backslash. -/
def unescape (inLines : Bool) (cs : List Char) : Option (List Char × List Char) :=
  match cs with
  | [] => none
  | c :: rest =>
    if inLines && isFillerChar c then (continueLine cs).map fun r => ([], r)
    else
      match c with
      | 'u' => (hexChar 4 rest).map fun r => ([r.1], r.2)
      | 'U' => (hexChar 8 rest).map fun r => ([r.1], r.2)
      | 'b' => some (['\x08'], rest)
      | 't' => some (['\t'], rest)
      | 'n' => some (['\n'], rest)
      | 'f' => some (['\x0c'], rest)
      | 'r' => some (['\r'], rest)
      | '\x22' => some (['\x22'], rest)
      | '\\' => some (['\\'], rest)
      | _ => none

/-- A string in double quotes, of at most `limit` characters. -/
def basicWithin (inLines : Bool) : (limit : Nat) → List Char → Option (List Char × List Char)
  | 0, _ => none
  | _, [] => none
  | limit + 1, c :: cs =>
    if c == '\x22' then
      if !inLines then some ([], cs)
      else if ['\x22', '\x22'].isPrefixOf cs then some ([], cs.drop 2)
      else (basicWithin inLines limit cs).map fun r => (c :: r.1, r.2)
    else if c == '\\' then do
      let (out, rest) ← unescape inLines cs
      let (text, rest) ← basicWithin inLines limit rest
      return (out ++ text, rest)
    else if isIllegal c && !(inLines && c == '\n') then none
    else (basicWithin inLines limit cs).map fun r => (c :: r.1, r.2)

def basic (cs : List Char) : Option (List Char × List Char) := basicWithin false (cs.length + 1) cs

def literal : List Char → Option (List Char × List Char)
  | [] => none
  | c :: cs =>
    if c == '\x27' then some ([], cs)
    else if isIllegal c then none
    else (literal cs).map fun r => (c :: r.1, r.2)

/-- A string up to three single quotes. -/
def upToThreeQuotes : List Char → Option (List Char × List Char)
  | '\x27' :: '\x27' :: '\x27' :: cs => some ([], cs)
  | c :: cs =>
    if isIllegalInLines c then none else (upToThreeQuotes cs).map fun r => (c :: r.1, r.2)
  | [] => none

/-- Up to two further quotes belong to the string before the closing ones. -/
def extraQuotes (mark : Char) (text cs : List Char) : List Char × List Char :=
  match cs with
  | a :: b :: rest =>
    if a = mark then if b = mark then (text ++ [a, b], rest) else (text ++ [a], b :: rest)
    else (text, cs)
  | [a] => if a = mark then (text ++ [a], []) else (text, cs)
  | [] => (text, [])

def skipLineEnd : List Char → List Char
  | '\n' :: cs => cs
  | cs => cs

def multiBasic (cs : List Char) : Option (List Char × List Char) :=
  (basicWithin true (cs.length + 1) (skipLineEnd cs)).map fun r => extraQuotes '\x22' r.1 r.2

def multiLiteral (cs : List Char) : Option (List Char × List Char) :=
  (upToThreeQuotes (skipLineEnd cs)).map fun r => extraQuotes '\x27' r.1 r.2

end TidyUse.Toml
