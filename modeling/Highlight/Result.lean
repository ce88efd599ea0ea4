import Highlight.Assembly.Node
import Highlight.Error
import Highlight.Format.Html

/-! Results of highlighting. -/
namespace Highlight

/-- An open mode. -/
structure Frame where
  node : NodeId
  /-- The text that ends the mode in place of its own end, if the mode ends as it began. -/
  delimiter : Option String := none
  deriving DecidableEq, Repr

/-- The top mode, open from the start of every scan. -/
def Frame.top : Frame := { node := rootNode }

/-- The modes that a scan left open, innermost first and the top mode last. A later scan by the same
grammar can take them up. -/
structure Continuation where
  frames : List Frame := [.top]
  deriving DecidableEq, Repr

namespace Continuation

/-- Number of open modes, the top mode among them. -/
def depth (c : Continuation) : Nat := c.frames.length

def atRoot (c : Continuation) : Bool := decide (c.frames.length ≤ 1)

/-- Whether the outermost mode is a top mode and all open modes are modes of a grammar with so many
nodes. -/
def fits (c : Continuation) (size : Nat) : Bool :=
  c.frames.getLast?.any (·.node == rootNode) && c.frames.all (·.node < size)

end Continuation

/-- Where and why a scan stopped at something illegal. -/
structure IllegalReport where
  message : String
  /-- The text around. -/
  context : String
  className : Option String
  /-- Byte offset that the scan had reached. -/
  index : Nat
  /-- Markup of what comes before. -/
  before : String
  deriving DecidableEq, Repr

structure Result where
  language : String
  relevance : Nat := 0
  /-- The children of the tree's root. -/
  tree : List Tree
  /-- The markup. -/
  value : String
  code : String
  illegal : Option IllegalReport := none
  /-- The fault that made the scan fall back to plain text. -/
  fault : Option Fault := none
  /-- The modes that are still open. -/
  continuation : Option Continuation := none

namespace Result

def plaintextName : String := "plaintext"

/-- A text as it is. -/
def plaintext (language code : String) : Result :=
  { language, code, tree := if code.isEmpty then [] else [.leaf code], value := Html.escape code }

def isPlaintext (r : Result) : Bool := r.language == plaintextName

end Result
end Highlight
