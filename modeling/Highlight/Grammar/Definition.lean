import Highlight.Grammar.Mode

/-!
Grammar definitions: a table of modes that refer to each other by place, a top mode, and what the
registry needs to know of the language.
-/
namespace Highlight

structure Grammar where
  /-- The name for display. -/
  name : String
  aliases : List String := []
  ignoreCase : Bool := false
  /-- Whether the grammar stays out of auto-detection. -/
  notDetected : Bool := false
  /-- The top mode; its own begin and end do not count. -/
  root : Mode := {}
  modes : Array Mode := #[]
  deriving Inhabited

namespace Grammar

/-- A grammar that highlights nothing and is never detected. -/
def plaintext (name : String) : Grammar := { name, notDetected := true }

def mode? (g : Grammar) (id : ModeId) : Option Mode := g.modes[id]?

/-- Add a mode at the end of the table. -/
def add (g : Grammar) (m : Mode) : ModeId × Grammar :=
  (g.modes.size,{ g with modes := g.modes.push m })

/-- Add an empty mode, to be defined later. -/
def reserve (g : Grammar) : ModeId × Grammar := g.add {}

/-- Change the mode at a place of the table, if there is one. -/
def modifyMode (g : Grammar) (id : ModeId) (f : Mode → Mode) : Grammar :=
  { g with modes := g.modes.modify id f }

def define (g : Grammar) (id : ModeId) (m : Mode) : Grammar := g.modifyMode id (fun _ => m)

/-- Add a copy of a mode with other settings laid over it. -/
def addInherited (g : Grammar) (base : ModeId) (overrides : Mode) : ModeId × Grammar :=
  g.add (((g.mode? base).map (·.inherit overrides)).getD overrides)

/-- Let a mode contain more. -/
def pushContains (g : Grammar) (id : ModeId) (children : List Child) : Grammar :=
  g.modifyMode id (fun m => { m with contains := some (m.contains.getD [] ++ children) })

/-- Whether a mode ends with its parent, or one of the next `n` modes of its chain of
continuations does. -/
def dependsWithin (g : Grammar) : Nat → Mode → Bool
  | 0, m => m.endsWithParent
  | n + 1, m =>
    m.endsWithParent ||
      match m.starts.bind g.mode? with
      | some next => dependsWithin g n next
      | none => false

/-- Whether the end of a mode depends on the mode around it: it ends with its parent, or one of
its continuations does. A chain that returns to a mode is cut at the size of the table. -/
def dependsOnParent (g : Grammar) (m : Mode) : Bool := g.dependsWithin (g.modes.size + 1) m

/-- The modes of the table that depend on their parents. -/
def parentDependencies (g : Grammar) : Array Bool := g.modes.map g.dependsOnParent

@[simp] theorem size_add (g : Grammar) (m : Mode) :
    (g.add m).2.modes.size = g.modes.size + 1 := by simp [add]
@[simp] theorem size_define (g : Grammar) (id : ModeId) (m : Mode) :
    (g.define id m).modes.size = g.modes.size := by simp [define,modifyMode]

end Grammar
end Highlight
