import TidyUse.Target

/-!
# One import for each path

The same path may be imported twice, under different names. An explicit name beats none, and none
beats `_`; two different explicit names are a conflict.

* `renameRank` : which name wins;
* `Conflict` : two explicit names for one path, and its `message`;
* `Target.resolve` : the better of two imports of a path;
* `Target.deduplicate` : one import for each path, in the order of first appearance.
-/

namespace TidyUse

/-- The name that imports an item without binding it. -/
def discardName : String := "_"

/-- The rank of a name: explicit names above none above `_`. -/
def renameRank : Option String → Nat
  | none => 1
  | some name => if name == discardName then 0 else 2

/-- Two explicit names for one path. -/
structure Conflict where
  key : String
  first : String
  second : String
deriving DecidableEq

def Conflict.message (c : Conflict) : String :=
  c.key ++ " is imported both as " ++ Text.quoted c.first ++ " and as " ++ Text.quoted c.second

namespace Target

/-- The better of two imports of one path. The older stays unless the newer ranks higher. -/
def resolve (old new : Target) : Except Conflict Target :=
  if old.rename = new.rename then .ok old
  else if renameRank old.rename = 2 ∧ renameRank new.rename = 2 then
    .error ⟨old.key, old.rename.getD "", new.rename.getD ""⟩
  else if renameRank old.rename < renameRank new.rename then .ok new
  else .ok old

/-- Adds an import to imports of different paths. -/
def insert (t : Target) : List Target → Except Conflict (List Target)
  | [] => .ok [t]
  | u :: us =>
    if u.key = t.key then (u.resolve t).map (· :: us)
    else (insert t us).map (u :: ·)

/-- One import for each path. -/
def deduplicate (ts : List Target) : Except Conflict (List Target) :=
  ts.foldlM (fun us t => insert t us) []

end Target

end TidyUse
