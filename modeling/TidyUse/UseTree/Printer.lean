import TidyUse.UseTree

/-!
# Printing a tree

* `UseTree.needsBraces` : whether children are written inside braces;
* `UseTree.format` : a tree as text. Inside braces each child has a line of its own and a comma.
-/

namespace TidyUse

/-- A name with its rename. An empty rename is not written. -/
def Segment.format (s : Segment) : String :=
  match s.rename with
  | none | some "" => s.name
  | some name => s.name ++ " as " ++ name

namespace UseTree

/-- Children are written inside braces unless there is one, and that is neither `self` nor `*`. -/
def needsBraces : List UseTree → Bool
  | [] => false
  | [c] => c.isSelf || c.isGlob
  | _ => true

def indentStep : String := "    "

mutual

/-- A tree as text, when its own line is indented by `indent`. -/
def format (indent : String) : UseTree → String
  | glob _ => globName
  | node s [] => s.format
  | node s (c :: cs) =>
    if needsBraces (c :: cs) then
      s.name ++ "::\x7b\n" ++ formatLines (indent ++ indentStep) (c :: cs) ++ indent ++ "\x7d"
    else s.name ++ "::" ++ format indent c

def formatLines (indent : String) : List UseTree → String
  | [] => ""
  | t :: ts => indent ++ format indent t ++ ",\n" ++ formatLines indent ts

end

end UseTree

end TidyUse
