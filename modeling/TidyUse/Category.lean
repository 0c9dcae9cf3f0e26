import TidyUse.Dependencies
import TidyUse.Statement

/-!
# Categories of declarations

* `Origin` : where a path starts, judged by its first name;
* `Category` : the section of the output a declaration belongs to.
-/

namespace TidyUse

inductive Origin
  /-- The standard library. -/
  | standard
  /-- The crate itself. -/
  | own
  /-- A crate that the manifest declares. -/
  | declared
  /-- Any other crate. -/
  | undeclared
deriving DecidableEq

/-- The origin of a first name, given the declared crates, if they are known. -/
def Origin.ofRoot (deps : Option Dependencies) (root : String) : Origin :=
  if ["std", "core", "alloc"].contains root then .standard
  else if ["crate", "super", "self"].contains root then .own
  else if deps.any fun d => d.contains root then .declared
  else .undeclared

/-- The sections of the output. -/
inductive Category
  | standard
  | external
  | internal
  /-- Declarations with attributes. -/
  | attributed
deriving DecidableEq

namespace Category

def label : Category → String
  | standard => "Standard Library"
  | external => "External Crates"
  | internal => "Internal Modules"
  | attributed => "Conditional Imports"

/-- The section of an origin. Crates that are not declared are external all the same. -/
def ofOrigin : Origin → Category
  | .standard => standard
  | .own => internal
  | .declared | .undeclared => external

end Category

def Statement.category (deps : Option Dependencies) (s : Statement) : Category :=
  if s.attributes.isEmpty then .ofOrigin (.ofRoot deps s.root) else .attributed

end TidyUse
