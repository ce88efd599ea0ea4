import Highlight.Detection
import Highlight.Registry
import Highlight.Scan.Run

/-!
Highlighters: registered grammars and settings. Highlighting a text may highlight parts of it by
other grammars, and those parts by yet others; every call says how deep that may go.
-/
namespace Highlight

structure Highlighter where
  settings : Settings := {}
  registry : Registry := {}

/-- What to highlight, and by which grammar. -/
structure Request where
  name : String
  code : String
  /-- Whether illegal lexemes are let through. -/
  tolerant : Bool := false
  /-- Modes that are open at the start of the text. -/
  continuation : Option Continuation := none

namespace Highlighter

/-- Highlight a text by every candidate that takes part in detection, and rank the results. -/
def detectBy (h : Highlighter) (run : Request → Call Result) (candidates : List String)
    (code : String) : Call Outcome := do
  let detected := candidates.filter h.registry.isDetected
  let ranking ← detected.foldlM
    (fun ranking name => return ranking.add (← run { name, code, tolerant := true }))
    ({} : Ranking)
  return ranking.outcome code

/-- The candidates of a detection that names none. -/
def candidates (h : Highlighter) : List String := h.settings.languages.getD h.registry.names

/-- Highlight embedded text, given how its grammars run. -/
def embedBy (h : Highlighter) (run : Request → Call Result) (sub : SubLanguage)
    (continuation : Option Continuation) (code : String) : Option (Call Result) :=
  match sub with
  | .named name =>
    if h.registry.contains name then some (run { name, code, tolerant := true, continuation })
    else none
  | .auto listed =>
    some (Outcome.best <$> h.detectBy run (if listed.isEmpty then h.candidates else listed) code)

/-- Highlight a text, with grammars embedded in each other less than so deep. -/
def highlightWithin (h : Highlighter) : Nat → Request → Call Result
  | 0, _ => throw .embeddingTooDeep
  | depth + 1, q =>
    match h.registry.find? q.name with
    | none => throw (.unknownGrammar q.name)
    | some (key,entry) =>
      match entry.table.get with
      | .error e => throw (.grammar e)
      | .ok table => do
        Call.noteAssembled key
        Scan.highlight
          { table, text := .ofString q.code, tolerant := q.tolerant
            safeMode := h.settings.safeMode, embed := h.embedBy (h.highlightWithin depth) }
          h.settings q.name q.code q.continuation

/-- Depth to spare for texts that grow where they are embedded: a mode may keep a lexeme and hand it
back as well. -/
def spareDepth : Nat := 10000

/-- How deep embedded grammars may nest in a call: each grammar may meet each length of text, and
longer texts come out of the depth to spare. -/
def depthFor (h : Highlighter) (code : String) : Nat :=
  (h.registry.size + 1) * (code.length + 1) + spareDepth

def highlight (h : Highlighter) (q : Request) : Call Result :=
  h.highlightWithin (h.depthFor q.code) q

/-- Find the grammar that fits a text best, among candidates. -/
def detectAmong (h : Highlighter) (candidates : List String) (code : String) : Call Outcome :=
  h.detectBy (h.highlightWithin (h.depthFor code)) candidates code

/-- Find the grammar that fits a text best. -/
def detect (h : Highlighter) (code : String) : Call Outcome := h.detectAmong h.candidates code

/-- Assemble a grammar ahead of its use. -/
def assemble (h : Highlighter) (name : String) : Option (Call NodeTable) := do
  let (key,entry) ← h.registry.find? name
  return match entry.table.get with
    | .error e => throw (.grammar e)
    | .ok table => do
      Call.noteAssembled key
      return table

end Highlighter
end Highlight
