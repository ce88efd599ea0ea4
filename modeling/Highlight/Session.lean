import Highlight.Highlighter

/-! Highlighters in use: which of their grammars are assembled already. -/
namespace Highlight

structure Session where
  highlighter : Highlighter := {}
  /-- The keys of the grammars that are assembled. -/
  assembled : List String := []

namespace Session

/-- Make a call, and note what it assembles. -/
def call {α : Type} (s : Session) (c : Call α) : Except HighlightError α × Session :=
  let (outcome,assembled) := c.run s.assembled
  (outcome,{ s with assembled })

/-- Whether the grammar of a name is assembled. -/
def isAssembled (s : Session) (name : String) : Bool :=
  (s.highlighter.registry.find? name).any fun (key,_) => s.assembled.contains key

def configure (s : Session) (settings : Settings) : Session :=
  { s with highlighter := { s.highlighter with settings } }

/-- Register a grammar. It counts as new, whatever was registered before. -/
def register (s : Session) (name : String)
    (define : Registry → Except HighlightError Grammar) : Except HighlightError Session := do
  let h := s.highlighter
  let registry ← h.registry.register h.settings.safeMode name define
  return { highlighter := { h with registry }
           assembled := s.assembled.filter (· != Registry.key name) }

end Session
end Highlight
