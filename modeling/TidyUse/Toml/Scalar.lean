/-!
# Numbers, dates and times of a TOML document

Their values do not matter here, only where they end. Each reader gives the text behind what it
reads.

* `number` : the text behind a number, and how many digits it has, if that counts;
* `time` : the text behind a time of day;
* `date` : the text behind a date, with or without a time; a date that no calendar has is refused.
-/

namespace TidyUse.Toml

/-- The text behind further digits. A single `_` may stand between two digits. -/
def moreDigits (isDigit : Char → Bool) : List Char → List Char
  | '_' :: d :: cs => if isDigit d then moreDigits isDigit cs else '_' :: d :: cs
  | d :: cs => if isDigit d then moreDigits isDigit cs else d :: cs
  | [] => []

def isHexDigit (c : Char) : Bool :=
  c.isDigit || ('a' ≤ c && c ≤ 'f') || ('A' ≤ c && c ≤ 'F')

def skipSign : List Char → List Char
  | '+' :: cs => cs
  | '-' :: cs => cs
  | cs => cs

def skipExponent (cs : List Char) : List Char :=
  match cs with
  | e :: rest =>
    if e == 'e' || e == 'E' then
      match skipSign rest with
      | d :: r => if d.isDigit then moreDigits Char.isDigit r else cs
      | [] => cs
    else cs
  | [] => cs

def skipFraction (cs : List Char) : List Char :=
  match cs with
  | '.' :: d :: rest =>
    if d.isDigit then skipExponent (moreDigits Char.isDigit rest) else skipExponent cs
  | _ => skipExponent cs

/-- The text behind the whole part of a number in base ten. -/
def wholePart (cs : List Char) : Option (List Char) :=
  match skipSign cs with
  | '0' :: rest => some rest
  | d :: rest => if d.isDigit then some (moreDigits Char.isDigit rest) else none
  | [] => none

/-- The number of digits before `rest`, which is a last part of `cs`. -/
def digitsBefore (rest cs : List Char) : Nat :=
  (cs.take (cs.length - rest.length)).countP Char.isDigit

/-- The text behind a number in base ten. The digits count if there is neither a fraction nor an
exponent. -/
def decimal (cs : List Char) : Option (Nat × List Char) :=
  (wholePart cs).map fun behind =>
    let rest := skipFraction behind
    (if rest.length = behind.length then digitsBefore rest cs else 0, rest)

/-- The text behind a number. The digits of whole numbers in base ten count. -/
def number (cs : List Char) : Option (Nat × List Char) :=
  match cs with
  | '0' :: 'x' :: d :: rest =>
    if isHexDigit d then some (0, moreDigits isHexDigit rest) else decimal cs
  | '0' :: 'b' :: d :: rest =>
    let isBit := fun (c : Char) => c == '0' || c == '1'
    if isBit d then some (0, moreDigits isBit rest) else decimal cs
  | '0' :: 'o' :: d :: rest =>
    let isOctal := fun (c : Char) => decide ('0' ≤ c ∧ c ≤ '7')
    if isOctal d then some (0, moreDigits isOctal rest) else decimal cs
  | _ => decimal cs

/-- Two digits whose value lies between two bounds. -/
def twoDigits (low high : Nat) : List Char → Option (Nat × List Char)
  | a :: b :: cs =>
    let n := (a.toNat - '0'.toNat) * 10 + (b.toNat - '0'.toNat)
    if a.isDigit && b.isDigit && low ≤ n && n ≤ high then some (n, cs) else none
  | _ => none

/-- The text behind a character that has to stand here. -/
def skipChar (c : Char) : List Char → Option (List Char)
  | d :: cs => if d = c then some cs else none
  | [] => none

def time (cs : List Char) : Option (List Char) := do
  let (_, cs) ← twoDigits 0 23 cs
  let cs ← skipChar ':' cs
  let (_, cs) ← twoDigits 0 59 cs
  let cs ← skipChar ':' cs
  let (_, cs) ← twoDigits 0 59 cs
  match cs with
  | '.' :: d :: rest => if d.isDigit then return rest.dropWhile Char.isDigit else return cs
  | _ => return cs

/-- The text behind a difference to the time of the meridian, if there is one. -/
def skipOffset (cs : List Char) : List Char :=
  match cs with
  | [] => []
  | c :: rest =>
    if c == 'Z' || c == 'z' then rest
    else if c == '+' || c == '-' then
      let offset := do
        let (_, r) ← twoDigits 0 23 rest
        let r ← skipChar ':' r
        let (_, r) ← twoDigits 0 59 r
        pure r
      offset.getD cs
    else cs

/-- The text behind a time that follows a date, if one does. -/
def skipTime (cs : List Char) : List Char :=
  match cs with
  | c :: rest =>
    if c == 'T' || c == 't' || c == ' ' then ((time rest).map skipOffset).getD cs else cs
  | [] => []

def daysIn (year month : Nat) : Nat :=
  if month = 2 then
    if year % 4 = 0 ∧ (year % 100 ≠ 0 ∨ year % 400 = 0) then 29 else 28
  else if month = 4 ∨ month = 6 ∨ month = 9 ∨ month = 11 then 30
  else 31

/-- The text behind a date, if there is one. The inner answer is missing for a date that does not
exist. -/
def date (cs : List Char) : Option (Option (List Char)) := do
  let (century, cs) ← twoDigits 0 99 cs
  let (year, cs) ← twoDigits 0 99 cs
  let cs ← skipChar '-' cs
  let (month, cs) ← twoDigits 1 12 cs
  let cs ← skipChar '-' cs
  let (day, cs) ← twoDigits 1 31 cs
  let year := century * 100 + year
  if year = 0 ∨ daysIn year month < day then return none
  return some (skipTime cs)

end TidyUse.Toml
