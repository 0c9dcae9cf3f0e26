import TidyUse.Statement.Merge

/-!
# Groups

The output shows declarations by category: the standard library, external crates, the crate itself,
and then one group for each set of attributes.

* `Group.ofStatements` : declarations by group;
* `Group.organize` : each group merged and sorted;
* `Group.render` : groups as text.
-/

namespace TidyUse

/-- The declarations of one section. -/
structure Group where
  category : Category
  statements : List Statement
  /-- The attributes of an attributed section, trimmed and in order. -/
  attributes : List String := []

namespace Group

/-- The groups without attributes, in order. -/
def plain (deps : Option Dependencies) (statements : List Statement) : List Group :=
  [Category.standard, .external, .internal].filterMap fun category =>
    let members := statements.filter fun s => s.category deps == category
    if members.isEmpty then none else some { category, statements := members }

/-- The groups with attributes, ordered by these. -/
def attributed (deps : Option Dependencies) (statements : List Statement) : List Group :=
  let members := statements.filter fun s => s.category deps == .attributed
  let sections := (buckets Statement.attributeKey members).mergeSort fun a b => !decide (b.1 < a.1)
  sections.map fun b => { category := .attributed, statements := b.2, attributes := b.1 }

/-- Declarations by group. No group is empty. -/
def ofStatements (deps : Option Dependencies) (statements : List Statement) : List Group :=
  plain deps statements ++ attributed deps statements

/-- A group with its declarations merged and sorted. -/
def tidy (log : Logger) (g : Group) : Traced Group := do
  let merged := Statement.sort (← Statement.merge log g.statements)
  Traced.note log
    (.summary g.category merged.length (merged.flatMap fun s => s.tree.targets).length)
  return { g with statements := merged }

def organize (log : Logger) (deps : Option Dependencies) (statements : List Statement) :
    Traced (List Group) :=
  Traced.flatMap (fun g => do return [← tidy log g]) (ofStatements deps statements)

/-- Groups as text, with an empty line between them. -/
def format (groups : List Group) : String :=
  let sections := groups.filter fun g => !g.statements.isEmpty
  "\n\n".intercalate
    (sections.map fun g => "\n".intercalate ((Statement.sort g.statements).map Statement.format))

/-- Groups as text that ends with a line end, unless there is none. -/
def render (groups : List Group) : String :=
  let text := format groups
  if text.isEmpty then "" else text ++ "\n"

end Group

end TidyUse
