/-!
# Declared crates

* `crateName` : a crate's name as paths spell it;
* `Dependencies` : the crates a manifest declares, by the reason they are needed.
-/

namespace TidyUse

/-- The name of a crate in paths, where `_` stands for `-`. -/
def crateName (name : String) : String :=
  String.ofList (name.toList.map fun c => if c == '-' then '_' else c)

/-- The crates a manifest declares, spelled as in paths. -/
structure Dependencies where
  normal : List String := []
  dev : List String := []
  build : List String := []

namespace Dependencies

/-- Dependencies without a special reason. -/
def ofNames (names : List String) : Dependencies := { normal := names.map crateName }

/-- The crate is declared, for whatever reason. -/
def contains (deps : Dependencies) (name : String) : Bool :=
  let name := crateName name
  deps.normal.contains name || deps.dev.contains name || deps.build.contains name

end Dependencies

end TidyUse
