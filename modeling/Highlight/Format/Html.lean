import Highlight.Tree.Basic

/-! Markup of a tree: a tag around every scope with a class, and escaped text. -/
namespace Highlight.Html

def escapeChar (c : Char) : List Char :=
  match c with
  | '&' => "&amp;".toList
  | '<' => "&lt;".toList
  | '>' => "&gt;".toList
  | c => [c]

/-- Text as markup that shows it. -/
def escape (text : String) : String := String.ofList (text.toList.flatMap escapeChar)

/-- The opening tag of a scope. The name of an embedded grammar stands without the prefix. -/
def openTag (classPrefix : String) (tag : Tag) : String :=
  match tag.kind with
  | none => ""
  | some kind => "<span class=\"" ++ (if tag.embedded then "" else classPrefix) ++ kind ++ "\">"

def closeTag (tag : Tag) : String := if tag.kind.isSome then "</span>" else ""

/-- The markup that an event adds. -/
def ofEvent (classPrefix : String) : WalkEvent → String
  | .opens tag => openTag classPrefix tag
  | .text leaf => escape leaf
  | .closes tag => closeTag tag

/-- The markup of a tree. -/
def render (classPrefix : String) (t : Tree) : String :=
  String.join (t.walk.map (ofEvent classPrefix))

end Highlight.Html
