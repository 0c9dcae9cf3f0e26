import TidyUse.Path
import TidyUse.Text.CharClass
import TidyUse.Text.Quoted

/-!
# Arguments of the command line

* `Switch` : the options; a long one may be shortened as long as it stays clear, a value may follow
  behind `=` or as the next word, and short ones may be written together;
* `Role.ofWord` : what a word is, taken by itself;
* `Arguments` : what is asked for;
* `Refusal` : why nothing is done, and its `message`;
* `Arguments.parse` : the arguments of a list of words.
-/

namespace TidyUse.Cli

inductive Switch
  | help | fix | quiet | manifest | noGroup | useFormatter | edition | verbose
deriving DecidableEq

namespace Switch

/-- How an option may be written in full. -/
def spellings : Switch → List String
  | help => ["-h", "--help"]
  | fix => ["--fix"]
  | quiet => ["--quiet", "-q"]
  | manifest => ["--manifest"]
  | noGroup => ["--no-group"]
  | useFormatter => ["--rustfmt"]
  | edition => ["--edition"]
  | verbose => ["--verbose", "-v"]

def all : List Switch := [help, fix, quiet, manifest, noGroup, useFormatter, edition, verbose]

def takesValue : Switch → Bool
  | manifest | edition => true
  | _ => false

/-- The option as messages call it. -/
def title (s : Switch) : String := "/".intercalate s.spellings

def table : List (String × Switch) := all.flatMap fun s => s.spellings.map fun w => (w, s)

end Switch

/-- Why nothing is done. -/
inductive Refusal
  /-- The help is asked for. -/
  | help
  | ambiguous (word : String) (spellings : List String)
  | missingValue (s : Switch)
  | ignoredValue (s : Switch) (value : String)
  | missingPaths
  | unrecognized (words : List String)
deriving DecidableEq

def Refusal.message : Refusal → String
  | help => ""
  | ambiguous word spellings =>
    "ambiguous option: " ++ word ++ " could match " ++ ", ".intercalate spellings
  | missingValue s => "argument " ++ s.title ++ ": expected one argument"
  | ignoredValue s value =>
    "argument " ++ s.title ++ ": ignored explicit argument " ++ Text.quoted value
  | missingPaths => "the following arguments are required: paths"
  | unrecognized words => "unrecognized arguments: " ++ " ".intercalate words

/-! ## Words -/

inductive Role
  | value
  /-- The word `--`, behind which everything is a value. -/
  | separator
  /-- Looks like an option, and is none. -/
  | unknown
  /-- An option, in a short spelling or not, with the rest of the word, if there is any. -/
  | option (s : Switch) (isShort : Bool) (rest : Option (List Char))
deriving DecidableEq

/-- The word is a dash and a decimal number, as a whole or a fraction. A line end may follow. -/
def isNegativeNumber (word : List Char) : Bool :=
  let word := if word.getLast? == some '\n' then word.dropLast else word
  match word with
  | '-' :: cs =>
    match cs.dropWhile Text.isDecimalDigit with
    | [] => !cs.isEmpty
    | '.' :: digits => !digits.isEmpty && digits.all Text.isDecimalDigit
    | _ => false
  | _ => false

def isShortSpelling (spelling : String) : Bool := !"--".toList.isPrefixOf spelling.toList

/-- The part of a word before its first `=`, and the part behind, if there is one. -/
def splitEquals (word : List Char) : String × Option (List Char) :=
  let before := String.ofList (word.takeWhile (· != '='))
  match word.dropWhile (· != '=') with
  | [] => (before, none)
  | _ :: behind => (before, some behind)

/-- The options a word may be short for, with their spellings and the rest of the word. -/
def candidates (word : List Char) : List (String × Switch × Option (List Char)) :=
  match word with
  | '-' :: '-' :: _ =>
    let parts := splitEquals word
    (Switch.table.filter fun e => parts.1.toList.isPrefixOf e.1.toList).map fun e =>
      (e.1, e.2, parts.2)
  | _ =>
    (Switch.table.filter fun e => e.1.toList == word.take 2).map fun e =>
      (e.1, e.2, some (word.drop 2))

/-- What a word is, when no `--` stands before it. -/
def Role.ofWord (word : String) : Except Refusal Role :=
  let cs := word.toList
  if word = "--" then .ok .separator
  else if cs.head? ≠ some '-' ∨ word = "-" then .ok .value
  else
    let parts := splitEquals cs
    match Switch.table.lookup word, Switch.table.lookup parts.1, parts.2 with
    | some s, _, _ => .ok (.option s (isShortSpelling word) none)
    | none, some s, some v => .ok (.option s (isShortSpelling parts.1) (some v))
    | _, _, _ =>
      match candidates cs with
      | [(spelling, s, v)] => .ok (.option s (isShortSpelling spelling) v)
      | [] => .ok (if isNegativeNumber cs || cs.contains ' ' then .value else .unknown)
      | many => .error (.ambiguous word (many.map fun c => c.1))

def classify : List String → Except Refusal (List (String × Role))
  | [] => .ok []
  | word :: words => do
    match ← Role.ofWord word with
    | .separator => return (word, .separator) :: words.map fun w => (w, .value)
    | role => return (word, role) :: (← classify words)

/-! ## Arguments -/

structure Arguments where
  paths : List Path
  fix : Bool := false
  quiet : Bool := false
  /-- The manifest that is named, if the option is there. With `--` as its value it names none. -/
  manifest : Option (Option Path) := none
  group : Bool := true
  useFormatter : Bool := false
  edition : String := "2021"
  verbose : Bool := false
deriving DecidableEq

/-- What the words read so far ask for. -/
structure Reading where
  /-- The paths, once a run of them has been met. -/
  paths : Option (List String) := none
  /-- Words that have no place. -/
  extras : List String := []
  arguments : Arguments := { paths := [] }

namespace Reading

def apply (r : Reading) (s : Switch) (value : String) : Except Refusal Reading :=
  let now (a : Arguments) : Except Refusal Reading := .ok { r with arguments := a }
  match s with
  | .help => .error .help
  | .fix => now { r.arguments with fix := true }
  | .quiet => now { r.arguments with quiet := true }
  | .manifest =>
    let path? := if value = "--" then none else some (Path.ofString value)
    now { r.arguments with manifest := some path? }
  | .noGroup => now { r.arguments with group := false }
  | .useFormatter => now { r.arguments with useFormatter := true }
  | .edition => now { r.arguments with edition := value }
  | .verbose => now { r.arguments with verbose := true }

/-- Takes a run of values into account. Only the first run holds paths. -/
def addValues (r : Reading) (words : List (String × Role)) : Reading :=
  let texts := words.map Prod.fst
  if r.paths.isNone && words.any fun w => w.2 = .value then
    { r with paths := some (texts.erase "--") }
  else { r with extras := r.extras ++ texts }

end Reading

/-- The options in one word, each with its value, when `rest` follows the first of them. Behind a
short option without a value there may be the letters of more such options; a `=` between the first
option and the rest does not matter. -/
def cluster (s : Switch) (isShort : Bool) (rest : List Char) :
    Except Refusal (List (Switch × String)) :=
  if s.takesValue then .ok [(s, String.ofList rest)]
  else
    match isShort, rest with
    | true, c :: cs =>
      match Switch.table.lookup (String.ofList ['-', c]), cs with
      | none, _ => .error (.ignoredValue s (String.ofList rest))
      | some next, [] => .ok [(s, ""), (next, "")]
      | some next, d :: ds => (cluster next true (d :: ds)).map ((s, "") :: ·)
    | _, _ => .error (.ignoredValue s (String.ofList rest))
termination_by rest.length

def readWords (r : Reading) : List (String × Role) → Except Refusal Reading
  | [] => .ok r
  | (word, role) :: words =>
    match role with
    | .unknown => readWords { r with extras := r.extras ++ [word] } words
    | .option s isShort (some rest) => do
      let options ← cluster s isShort rest
      readWords (← options.foldlM (fun r o => r.apply o.1 o.2) r) words
    | .option s _ none =>
      if s.takesValue then
        match words with
        | (value, .value) :: words => do readWords (← r.apply s value) words
        | _ => .error (.missingValue s)
      else do readWords (← r.apply s "") words
    | _ =>
      let isOption : String × Role → Bool := fun w => w.2 != .value && w.2 != .separator
      let run := words.takeWhile fun w => !isOption w
      readWords (r.addValues ((word, role) :: run)) (words.dropWhile fun w => !isOption w)
termination_by words => words.length
decreasing_by
  all_goals simp only [List.length_cons]
  · omega
  · omega
  · omega
  · omega
  · have := (List.dropWhile_sublist (l := words) fun w => !(w.2 != .value && w.2 != .separator)).length_le
    omega

def Arguments.parse (words : List String) : Except Refusal Arguments := do
  let r ← readWords {} (← classify words)
  match r.paths with
  | none => throw .missingPaths
  | some paths =>
    unless r.extras.isEmpty do throw (.unrecognized r.extras)
    return { r.arguments with paths := paths.map Path.ofString }

end TidyUse.Cli
