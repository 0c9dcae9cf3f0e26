import TidyUse.Text.Lines
import TidyUse.Toml.Quoted
import TidyUse.Toml.Value

/-!
# Reading a TOML document

* `key` : a dotted key of bare and quoted names;
* `value` : a value, arrays and inline tables included;
* `ReadError` : why a text is no document that can be read;
* `read` : a document as a table.
-/

namespace TidyUse.Toml

/-- The text without spaces and tabs at its start. -/
def skipBlank (cs : List Char) : List Char := cs.dropWhile isBlankChar

def skipComment (cs : List Char) : Option (List Char) :=
  match cs with
  | '#' :: rest =>
    if (rest.takeWhile (· != '\n')).any isIllegal then none else some (rest.dropWhile (· != '\n'))
  | _ => some cs

/-- The text behind white space, line ends and comments, of which there are at most `limit`. -/
def skipFiller : (limit : Nat) → List Char → Option (List Char)
  | 0, cs => some cs
  | limit + 1, cs =>
    match cs.dropWhile isFillerChar with
    | '#' :: rest => (skipComment ('#' :: rest)).bind (skipFiller limit)
    | rest => some rest

/-- The text behind white space, line ends and comments. -/
def skipAllFiller (cs : List Char) : Option (List Char) := skipFiller cs.length cs

/-! ## Keys -/

def isBareChar (c : Char) : Bool := c.isAlphanum || c == '-' || c == '_'

def keyPart (cs : List Char) : Option (String × List Char) :=
  match cs with
  | [] => none
  | c :: rest =>
    if isBareChar c then some (String.ofList (cs.takeWhile isBareChar), cs.dropWhile isBareChar)
    else if c == '\x27' then (literal rest).map fun r => (String.ofList r.1, r.2)
    else if c == '\x22' then (basic rest).map fun r => (String.ofList r.1, r.2)
    else none

/-- A key of at most `limit` names. -/
def keyWithin : (limit : Nat) → List Char → Option (Key × List Char)
  | 0, _ => none
  | limit + 1, cs => do
    let (name, rest) ← keyPart cs
    match skipBlank rest with
    | '.' :: rest =>
      let (names, rest) ← keyWithin limit (skipBlank rest)
      return (name :: names, rest)
    | rest => return ([name], rest)

def key (cs : List Char) : Option (Key × List Char) := keyWithin (cs.length + 1) cs

/-! ## Errors -/

/-- Why a text is no document that can be read. The first reason in the text is given. -/
inductive ReadError
  /-- The text is no TOML. -/
  | malformed
  /-- A whole number in base ten has more digits than are read. -/
  | longInteger (digits : Nat)
deriving DecidableEq

/-- How many digits a whole number in base ten may have. -/
def maxDigits : Nat := 4300

/-- What is missing is malformed. -/
def require {α : Type} : Option α → Except ReadError α
  | some a => .ok a
  | none => .error .malformed

/-! ## Values -/

def skipWord (word : String) (cs : List Char) : Option (List Char) :=
  if word.toList.isPrefixOf cs then some (cs.drop word.length) else none

/-- The text behind the first of some words that it opens with. -/
def skipOneOf (words : List String) (cs : List Char) : Option (List Char) :=
  words.findSome? fun w => skipWord w cs

/-- The text behind a number. -/
def boundedNumber (cs : List Char) : Option (Except ReadError (List Char)) :=
  (number cs).map fun r => if maxDigits < r.1 then .error (.longInteger r.1) else .ok r.2

/-- The text behind a truth value, a date, a time or a number. -/
def scalar (cs : List Char) : Except ReadError (List Char) :=
  let found :=
    ((skipOneOf ["true", "false"] cs).map .ok).or
      (((date cs).map require).or
        (((time cs).map .ok).or
          ((boundedNumber cs).or
            ((skipOneOf ["inf", "nan", "-inf", "+inf", "-nan", "+nan"] cs).map .ok))))
  found.getD (.error .malformed)

def string (cs : List Char) : Option (List Char × List Char) :=
  match cs with
  | '\x22' :: '\x22' :: '\x22' :: rest => multiBasic rest
  | '\x27' :: '\x27' :: '\x27' :: rest => multiLiteral rest
  | '\x22' :: rest => basic rest
  | '\x27' :: rest => literal rest
  | _ => none

def opensString : List Char → Bool
  | c :: _ => c == '\x22' || c == '\x27'
  | [] => false

mutual

/-- A value, read with at most `limit` steps. -/
def valueWithin : (limit : Nat) → List Char → Except ReadError (Value × List Char)
  | 0, _ => .error .malformed
  | limit + 1, cs =>
    if opensString cs then require ((string cs).map fun r => (.string (String.ofList r.1), r.2))
    else
      match cs with
      | '[' :: rest => do
        let (items, rest) ← itemsWithin limit (← require (skipAllFiller rest))
        return (.array items, rest)
      | '\x7b' :: rest => do
        match skipBlank rest with
        | '\x7d' :: rest => return (.table [], rest)
        | rest =>
          let (d, rest) ← entriesWithin limit {} rest
          return (.table d.root, rest)
      | _ => (scalar cs).map fun rest => (.scalar, rest)

/-- The items of an array up to its closing bracket, read with at most `limit` steps. -/
def itemsWithin : (limit : Nat) → List Char → Except ReadError (List Value × List Char)
  | 0, _ => .error .malformed
  | _, ']' :: rest => .ok ([], rest)
  | limit + 1, cs => do
    let (v, rest) ← valueWithin limit cs
    match ← require (skipAllFiller rest) with
    | ']' :: rest => return ([v], rest)
    | ',' :: rest =>
      let (vs, rest) ← itemsWithin limit (← require (skipAllFiller rest))
      return (v :: vs, rest)
    | _ => throw .malformed

/-- The entries of an inline table up to its closing brace, added to those of a draft, read with at
most `limit` steps. -/
def entriesWithin : (limit : Nat) → Draft → List Char → Except ReadError (Draft × List Char)
  | 0, _, _ => .error .malformed
  | limit + 1, d, cs => do
    let (k, rest) ← require (key cs)
    let rest ← require (skipChar '=' rest)
    let (v, rest) ← valueWithin limit (skipBlank rest)
    let d ← require (d.insertInline k v)
    match skipBlank rest with
    | '\x7d' :: rest => return (d, rest)
    | ',' :: rest => entriesWithin limit d (skipBlank rest)
    | _ => throw .malformed

end

/-- A value. Each step of reading it takes a character or goes one level down. -/
def value (cs : List Char) : Except ReadError (Value × List Char) :=
  valueWithin (2 * cs.length + 2) cs

/-! ## Statements -/

def entry (d : Draft) (cs : List Char) : Except ReadError (Draft × List Char) := do
  let (k, rest) ← require (key cs)
  let rest ← require (skipChar '=' rest)
  let (v, rest) ← value (skipBlank rest)
  return (← require (d.insert k v), rest)

def header (d : Draft) (cs : List Char) : Option (Draft × List Char) := do
  match cs with
  | '[' :: '[' :: rest =>
    let (k, rest) ← key (skipBlank rest)
    return (← d.openArrayTable k, ← skipWord "]]" rest)
  | '[' :: rest =>
    let (k, rest) ← key (skipBlank rest)
    return (← d.openTable k, ← skipWord "]" rest)
  | _ => none

/-- The statement that a line opens with, if it opens with one. -/
def statement (d : Draft) (cs : List Char) : Except ReadError (Draft × List Char) :=
  match cs with
  | '[' :: _ => require (header d cs)
  | '#' :: _ => .ok (d, cs)
  | c :: _ => if isBareChar c || opensString cs then entry d cs else .error .malformed
  | [] => .ok (d, cs)

/-- The statements of a text of at most `limit` lines. -/
def linesWithin : (limit : Nat) → Draft → List Char → Except ReadError Draft
  | 0, _, _ => .error .malformed
  | limit + 1, d, cs =>
    match skipBlank cs with
    | [] => .ok d
    | '\n' :: rest => linesWithin limit d rest
    | cs => do
      let (d, rest) ← statement d cs
      match ← require (skipComment (skipBlank rest)) with
      | [] => return d
      | '\n' :: rest => linesWithin limit d rest
      | _ => throw .malformed

def read (text : List Char) : Except ReadError Table :=
  let cs := Text.joinReturns text
  (linesWithin (cs.length + 1) {} cs).map Draft.root

end TidyUse.Toml
