/-!
# Values of a TOML document

* `Value` : tables, arrays, strings, and all that is not told apart here;
* `Draft` : a document that is being read, with what may no longer be changed in it;
* `Draft.openTable`, `Draft.openArrayTable`, `Draft.insert` : the three kinds of statements. They
  fail on what is defined twice.
-/

namespace TidyUse.Toml

inductive Value
  | table (entries : List (String × Value))
  | array (items : List Value)
  | string (text : String)
  /-- A number, a truth value, a date or a time. -/
  | scalar

/-- The entries of a table, in the order of appearance. -/
abbrev Table := List (String × Value)

/-- A path of names. -/
abbrev Key := List String

namespace Value

/-- The entry of a table. Other values have none. -/
def get? (name : String) : Value → Option Value
  | table entries => entries.lookup name
  | _ => none

/-- The value is a table or an array. -/
def isContainer : Value → Bool
  | table _ | array _ => true
  | _ => false

end Value

namespace Table

def replace (name : String) (v : Value) (t : Table) : Table :=
  t.map fun e => if e.1 == name then (name, v) else e

def insertNew (name : String) (v : Value) (t : Table) : Option Table :=
  if (t.lookup name).isSome then none else some (t ++ [(name, v)])

/-- Adds an empty table to the array of a name, which may be new. -/
def appendTable (name : String) (t : Table) : Option Table :=
  match t.lookup name with
  | none => some (t ++ [(name, .array [.table []])])
  | some (.array items) => some (replace name (.array (items ++ [.table []])) t)
  | some _ => none

/-- Changes the table at a key, which is made if need be. In an array of tables the last one is
meant, if `intoArrays` allows it. -/
def alter (intoArrays : Bool) (f : Table → Option Table) : Key → Table → Option Table
  | [], t => f t
  | name :: names, t =>
    match t.lookup name with
    | none => (alter intoArrays f names []).map fun inner => t ++ [(name, .table inner)]
    | some (.table inner) =>
      (alter intoArrays f names inner).map fun inner => replace name (.table inner) t
    | some (.array items) =>
      match intoArrays, items.getLast? with
      | true, some (.table inner) =>
        (alter intoArrays f names inner).map fun inner =>
          replace name (.array (items.dropLast ++ [.table inner])) t
      | _, _ => none
    | some _ => none

end Table

/-- A document that is being read. -/
structure Draft where
  root : Table := []
  /-- The key of the table that entries go to. -/
  header : Key := []
  /-- Tables that may not be opened again. -/
  closed : List Key := []
  /-- Tables that may not be opened again behind the next header. -/
  closing : List Key := []
  /-- Values that are complete, with all that is in them. -/
  frozen : List Key := []

namespace Draft

/-- The key lies in a complete value. -/
def isFrozen (d : Draft) (key : Key) : Bool := d.frozen.any fun k => k.isPrefixOf key

/-- The draft at a header: what was to be closed, is. -/
def atHeader (d : Draft) : Draft := { d with closed := d.closing ++ d.closed, closing := [] }

def openTable (d : Draft) (key : Key) : Option Draft :=
  let d := d.atHeader
  if d.closed.contains key || d.isFrozen key then none
  else do
    let root ← Table.alter true some key d.root
    return { d with root, header := key, closed := key :: d.closed }

/-- Opens a new table in the array of a header `[[key]]`. All below the key starts afresh. -/
def openArrayTable (d : Draft) (key : Key) : Option Draft :=
  let d := d.atHeader
  if d.isFrozen key then none
  else do
    let root ← Table.alter true (Table.appendTable (key.getLastD "")) key.dropLast d.root
    let afresh := fun (keys : List Key) => keys.filter fun k => !key.isPrefixOf k
    return { d with root, header := key, closed := key :: afresh d.closed, frozen := afresh d.frozen }

/-- The keys on the way to a dotted key, behind the header. -/
def way (d : Draft) (key : Key) : List Key :=
  (List.range (key.length - 1)).map fun i => d.header ++ key.take (i + 1)

/-- Adds an entry to the table of the header. -/
def insert (d : Draft) (key : Key) (v : Value) : Option Draft :=
  let whole := d.header ++ key
  if (d.way key).any d.closed.contains || d.isFrozen whole.dropLast then none
  else do
    let root ← Table.alter true (Table.insertNew (whole.getLastD "") v) whole.dropLast d.root
    return { d with
      root
      closing := d.way key ++ d.closing
      frozen := if v.isContainer then whole :: d.frozen else d.frozen }

/-- Adds an entry to an inline table. Arrays in it are never opened, and nothing of it is closed. -/
def insertInline (d : Draft) (key : Key) (v : Value) : Option Draft :=
  if d.isFrozen key then none
  else do
    let root ← Table.alter false (Table.insertNew (key.getLastD "") v) key.dropLast d.root
    return { d with root, frozen := if v.isContainer then key :: d.frozen else d.frozen }

end Draft

end TidyUse.Toml
