import Highlight.Tree.Basic

/-!
Trees under construction. Scopes open inside each other and are attached to the scope around them
when they close, so that what comes out is always a tree.
-/
namespace Highlight.Tree

/-- The innermost open scope, and the scopes around it. Lists of children are reversed. -/
structure Builder where
  current : List Tree := []
  /-- The class of each open scope, innermost first, and what precedes it in the scope around. -/
  enclosing : List (String × List Tree) := []

namespace Builder

/-- Number of open scopes, the top level among them. -/
def depth (b : Builder) : Nat := b.enclosing.length + 1

/-- Add text to reversed children, as part of the last leaf if they end in one. -/
def pushText (text : String) : List Tree → List Tree
  | .leaf last :: rest => .leaf (last ++ text) :: rest
  | nodes => .leaf text :: nodes

def addText (b : Builder) (text : String) : Builder :=
  if text.isEmpty then b else { b with current := pushText text b.current }

def openScope (b : Builder) (kind : String) : Builder :=
  { current := [], enclosing := (kind,b.current) :: b.enclosing }

/-- Close the innermost scope. The top level stays open. -/
def closeScope (b : Builder) : Builder :=
  match b.enclosing with
  | [] => b
  | (kind,before) :: rest =>
    { current := .scope { kind := some kind } b.current.reverse :: before, enclosing := rest }

/-- Add a scope with one leaf. -/
def addKeyword (b : Builder) (text kind : String) : Builder :=
  if text.isEmpty then b else ((b.openScope kind).addText text).closeScope

/-- Add a result of another grammar. -/
def addEmbedded (b : Builder) (children : List Tree) (kind : Option String) : Builder :=
  { b with current := .scope { kind, embedded := true } children :: b.current }

/-- Close all scopes around reversed children, and give the reversed top level. -/
def collapse (current : List Tree) : List (String × List Tree) → List Tree
  | [] => current
  | (kind,before) :: rest => collapse (.scope { kind := some kind } current.reverse :: before) rest

def closeAll (b : Builder) : Builder := { current := collapse b.current b.enclosing }

/-- The finished tree, as the children of its root. -/
def finish (b : Builder) : List Tree := b.closeAll.current.reverse

@[simp] theorem depth_openScope (b : Builder) (kind : String) :
    (b.openScope kind).depth = b.depth + 1 := rfl
@[simp] theorem depth_addText (b : Builder) (text : String) :
    (b.addText text).depth = b.depth := by
  simp only [addText]
  split <;> rfl
@[simp] theorem depth_closeAll (b : Builder) : b.closeAll.depth = 1 := rfl

end Builder
end Highlight.Tree
