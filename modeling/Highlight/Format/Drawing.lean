import Highlight.Tree.Basic

/-! Drawings of trees: a line for every node, joined by connectors, with blanks made visible. -/
namespace Highlight.Drawing

/-- The first `width` characters, and dots if that is not all. -/
def truncate (width : Nat) (cs : List Char) : List Char :=
  if width < cs.length then cs.take width ++ "...".toList else cs

def visibleBreak (c : Char) : Char :=
  match c with
  | '\n' => '↵'
  | '\t' => '⇥'
  | c => c

/-- Mark the blanks at the start of a text. -/
def markBlanks : List Char → List Char
  | ' ' :: rest => '␠' :: markBlanks rest
  | cs => cs

/-- The label of a leaf: line feeds and tabs are visible, and so are blanks at either end. -/
def leafLabel (text : String) : String :=
  let marked := markBlanks (text.toList.map visibleBreak)
  String.ofList (truncate 30 (markBlanks marked.reverse).reverse)

/-- The icon and label of a scope. -/
def scopeLabel (tag : Tag) : String :=
  match tag.kind, tag.embedded with
  | some kind, true => "⊕ " ++ kind
  | some kind, false => "◆ " ++ kind
  | none, true => "⊕ (untagged)"
  | none, false => "○ "

def connector (last : Bool) : String := if last then "└─ " else "├─ "

/-- What stands under a connector in the lines of its children. -/
def underConnector (last : Bool) : String := if last then "   " else "│  "

mutual

/-- The lines of a node, and what follows them. -/
def nodeThen (margin : String) (last : Bool) : Tree → List String → List String
  | .leaf text, rest => (margin ++ connector last ++ "◦ " ++ leafLabel text) :: rest
  | .scope tag children, rest =>
    (margin ++ connector last ++ scopeLabel tag) ::
      childrenThen (margin ++ underConnector last) children rest

def childrenThen (margin : String) : List Tree → List String → List String
  | [], rest => rest
  | t :: ts, rest => nodeThen margin ts.isEmpty t (childrenThen margin ts rest)

end

/-- The drawing of a result, every line ended by a line feed. -/
def render (language : String) (relevance : Nat) (children : List Tree) : String :=
  let title := s!"⧉ {language} (relevance {relevance})"
  String.join ((title :: childrenThen "" children []).map (· ++ "\n"))

example : leafLabel "  a\tb " = "␠␠a⇥b␠" := by decide +kernel

end Highlight.Drawing
