import Highlight.Json.Value
import Highlight.Tree.Basic

/-! Trees as JSON values. -/
namespace Highlight

/-- The fields of a scope but its children: the class, and whether it is embedded if it is. -/
def Tag.jsonFields (tag : Tag) : List (String × Json) :=
  (match tag.kind with
    | some kind => [("kind",.string kind)]
    | none => []) ++
  (if tag.embedded then [("sublanguage",.bool true)] else [])

mutual

/-- A leaf as a string, a scope as an object with a list of children. -/
def Tree.toJson : Tree → Json
  | .leaf text => .string text
  | .scope tag children => .object (tag.jsonFields ++ [("children",.array (Tree.allToJson children))])

def Tree.allToJson : List Tree → List Json
  | [] => []
  | t :: ts => t.toJson :: Tree.allToJson ts

end

end Highlight
