/-!
Trees of classed spans over a text. The leaves, read in order, spell out the text; a scope classes
all that lies below it. A tree is printed through its walk, the list of what is met from left to
right.
-/
namespace Highlight

/-- What a scope says of the text below it. -/
structure Tag where
  /-- The class of the scope, or the name of its grammar if it is embedded. -/
  kind : Option String := none
  /-- Whether the scope holds text of another grammar. -/
  embedded : Bool := false
  deriving DecidableEq, Repr

inductive Tree where
  | leaf (text : String)
  | scope (tag : Tag) (children : List Tree)
  deriving Repr

/-- What a walk over a tree meets. -/
inductive WalkEvent where
  | opens (tag : Tag)
  | text (text : String)
  | closes (tag : Tag)
  deriving DecidableEq, Repr

namespace Tree

mutual

/-- The walk over a tree, and what follows it. -/
def walkThen : Tree → List WalkEvent → List WalkEvent
  | leaf text, rest => .text text :: rest
  | scope tag children, rest => .opens tag :: walkAllThen children (.closes tag :: rest)

/-- The walk over several trees, and what follows it. -/
def walkAllThen : List Tree → List WalkEvent → List WalkEvent
  | [], rest => rest
  | t :: ts, rest => t.walkThen (walkAllThen ts rest)

end

def walk (t : Tree) : List WalkEvent := t.walkThen []

/-- A whole result: a scope without a class around it. -/
def root (children : List Tree) : Tree := scope {} children

end Tree

/-- The characters that an event adds to the text. -/
def WalkEvent.leafText : WalkEvent → String
  | .text leaf => leaf
  | _ => ""

/-- The text of the leaves. -/
def Tree.text (t : Tree) : String := String.join (t.walk.map WalkEvent.leafText)

example :
    (Tree.root [.leaf "a",.scope { kind := some "k" } [.leaf "b"]]).text = "ab" := by
  rfl

end Highlight
