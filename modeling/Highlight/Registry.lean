import Highlight.Assembly.Table
import Highlight.Error

/-!
Registries of grammars. Names and aliases are compared in lower case. A later registration replaces
an earlier one in its place, and takes over the aliases it declares.
-/
namespace Highlight

/-- A registered grammar, assembled when it is first used. -/
structure Entry where
  grammar : Grammar
  table : Thunk (Except GrammarError NodeTable)
  table_get : table.get = grammar.assemble

def Entry.ofGrammar (grammar : Grammar) : Entry :=
  { grammar, table := Thunk.mk fun _ => grammar.assemble, table_get := rfl }

structure Registry where
  /-- Entries by key, in the order of first registration. -/
  entries : List (String × Entry) := []
  /-- The keys that aliases stand for; the newest declaration comes first. -/
  aliases : List (String × String) := []

namespace Registry

/-- What a name is stored under. -/
def key (name : String) : String := Text.lower name

/-- Put an entry in the place of an earlier one, or at the end. -/
def store (key : String) (e : Entry) : List (String × Entry) → List (String × Entry)
  | [] => [(key,e)]
  | (k,old) :: rest => if k = key then (k,e) :: rest else (k,old) :: store key e rest

/-- Store a grammar under a name, and make its aliases stand for it. -/
def insert (r : Registry) (name : String) (g : Grammar) : Registry :=
  { entries := store (key name) (.ofGrammar g) r.entries
    aliases := (g.aliases.map fun alternative => (key alternative,key name)).reverse ++ r.aliases }

/-- The keys of all grammars, in the order of their first registration. -/
def names (r : Registry) : List String := r.entries.map Prod.fst

def size (r : Registry) : Nat := r.entries.length

/-- The key of the grammar that a name or alias stands for, and its entry. -/
def find? (r : Registry) (name : String) : Option (String × Entry) :=
  match r.entries.lookup (key name) with
  | some e => some (key name,e)
  | none => do
    let k ← r.aliases.lookup (key name)
    return (k,← r.entries.lookup k)

def contains (r : Registry) (name : String) : Bool := (r.find? name).isSome

/-- The grammar of a name that another grammar needs. -/
def require (r : Registry) (name : String) : Except HighlightError Grammar :=
  match r.find? name with
  | some (_,e) => .ok e.grammar
  | none => .error (.missingRequiredGrammar name)

/-- Whether a grammar takes part in detection. -/
def isDetected (r : Registry) (name : String) : Bool :=
  (r.find? name).any fun (_,e) => !e.grammar.notDetected

/-- Register what a definition comes to. In safe mode plain text stands in for a grammar that cannot
be defined. -/
def register (r : Registry) (safeMode : Bool) (name : String)
    (define : Registry → Except HighlightError Grammar) : Except HighlightError Registry :=
  match define r with
  | .ok g => .ok (r.insert name g)
  | .error e =>
    if safeMode then .ok (r.insert name (.plaintext name))
    else .error (.definitionFailed (key name) e.message)

end Registry
end Highlight
