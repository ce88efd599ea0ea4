import Highlight.Grammar.Definition
import Highlight.Rules.Matcher

/-! Nodes: modes with their patterns compiled and their references resolved to places in a table. -/
namespace Highlight

/-- A node, by its place in the node table. The top mode is node zero. -/
abbrev NodeId := Nat

def rootNode : NodeId := 0

structure Node where
  className : Option String
  /-- The pattern that begins the mode; absent for the top mode. -/
  beginPattern : Option String
  /-- The mode's own end, to be matched where the remaining text starts. -/
  endRegex : Option Regex
  keywords : Option KeywordTable
  lexemes : Regex
  relevance : Nat
  switches : Switches Bool
  subLanguage : Option SubLanguage
  beginGuard : Option BeginGuard
  /-- The node that follows when this one closes. -/
  starts : Option NodeId
  /-- The begins of the children, then the end, then what is illegal. -/
  rules : Rules.RuleSet
  deriving Inhabited

/-- A grammar ready to scan with. -/
structure NodeTable where
  name : String
  ignoreCase : Bool
  nodes : Array Node

/-- The node at a place; one without rules if there is none. -/
def NodeTable.node (t : NodeTable) (id : NodeId) : Node := t.nodes.getD id default

def NodeTable.size (t : NodeTable) : Nat := t.nodes.size

end Highlight
