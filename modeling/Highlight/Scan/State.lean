import Highlight.Result
import Highlight.Tree.Builder

/-!
The state of a scan. A scan goes through a text by one grammar. It keeps the stack of open modes,
the tree so far, and a buffer of text that the innermost mode has not put into the tree yet.
-/
namespace Highlight

/-- A computation that records which grammars it assembles, also where it fails. -/
abbrev Call := ExceptT HighlightError (StateM (List String))

/-- Record that a grammar was assembled. -/
def Call.noteAssembled (key : String) : Call Unit := modify (fun keys : List String => keys.insert key)

/-- The call that comes out as given. -/
def Call.ofExcept {α : Type} (outcome : Except HighlightError α) : Call α := ExceptT.mk (pure outcome)

namespace Scan

/-- Why a scan stops before the end of the text. -/
inductive Halt where
  | illegal (lexeme : String)
  | fault (f : Fault)
  /-- A run of an embedded grammar failed. -/
  | error (e : HighlightError)
  deriving DecidableEq, Repr

/-- What stays the same during a scan. -/
structure Env where
  table : NodeTable
  text : Source
  /-- Whether illegal lexemes are let through. -/
  tolerant : Bool
  safeMode : Bool
  /-- Highlights text of an embedded grammar, in the modes that an earlier piece left open. There
  is nothing to call if no such grammar is known. -/
  embed : SubLanguage → Option Continuation → String → Option (Call Result)

namespace Env

def node (env : Env) (id : NodeId) : Node := env.table.node id
def switches (env : Env) (id : NodeId) : Switches Bool := (env.node id).switches
def lexeme (env : Env) (m : Rules.RuleMatch) : String := m.lexeme env.text

end Env

structure State where
  /-- The open modes, innermost first and the top mode last. -/
  stack : List Frame := [.top]
  tree : Tree.Builder := {}
  buffer : String := ""
  relevance : Nat := 0
  /-- The modes that each embedded grammar is in, by its name. -/
  embedded : List (String × Continuation) := []
  /-- The match that was handled last. -/
  last : Option Rules.RuleMatch := none
  position : Nat := 0
  /-- The first rule that the next search may use. -/
  resumeAt : Nat := 0
  /-- Whether the next search goes on with the rules that are left at this position. -/
  stays : Bool := false
  assembled : List String := []

/-- Open the scope of a mode, if it has a class. -/
def openMode (table : NodeTable) (f : Frame) (tree : Tree.Builder) : Tree.Builder :=
  match (table.node f.node).className with
  | some className => tree.openScope className
  | none => tree

/-- The node of the innermost open mode. -/
def State.top (s : State) : NodeId := (s.stack.head?.map Frame.node).getD rootNode

/-- A step of a scan. Its state outlives a halt. -/
abbrev Action := ExceptT Halt (StateM State)

namespace Action

def append (text : String) : Action Unit :=
  modify fun s => { s with buffer := s.buffer ++ text }

def setBuffer (text : String) : Action Unit := modify fun s => { s with buffer := text }

def changeTree (f : Tree.Builder → Tree.Builder) : Action Unit :=
  modify fun s => { s with tree := f s.tree }

def score (relevance : Nat) : Action Unit :=
  modify fun s => { s with relevance := addRelevance s.relevance relevance }

/-- Stop with a fault. -/
def fail {α : Type} (f : Fault) : Action α := throw (.fault f)

/-- The value of a search. -/
def ofSearch {α : Type} : Except Regex.GaveUp α → Action α
  | .ok a => pure a
  | .error .gaveUp => fail .searchGaveUp

/-- Call the highlighter. -/
def ofCall {α : Type} (c : Call α) : Action α := do
  let s ← get
  let (outcome,assembled) := c.run s.assembled
  set { s with assembled }
  match outcome with
  | .ok a => pure a
  | .error e => throw (.error e)

end Action
end Scan
end Highlight
