import Highlight.Grammar.Shared

/-! Differences between files, in the unified and the context form. -/
namespace Highlight.Grammar.Bundled

/-- A line mark: what begins the line, and the end of the line unless the begin spans it all. -/
def lineMark (beginPattern : String) (toLineEnd : Bool) : Mode :=
  { beginPattern := some beginPattern, endPattern := if toLineEnd then some "$" else none }

def lineOf (className beginPattern : String) : Build ModeId :=
  addMode { lineMark beginPattern true with className := some className }

def diffModes : Build Mode := do
  let hunk ← addMode {
    className := some "meta", relevance := some 10,
    variants := some [
      lineMark "^@@ +-\\d+,\\d+ +\\+\\d+,\\d+ +@@$" false,
      lineMark "^\\*\\*\\* +\\d+,\\d+ +\\*\\*\\*\\*$" false,
      lineMark "^--- +\\d+,\\d+ +----$" false] }
  let header ← addMode {
    className := some "comment",
    variants := some [
      lineMark "Index: " true,
      lineMark "=\x7b3,\x7d" true,
      lineMark "^-\x7b3\x7d" true,
      lineMark "^\\*\x7b3\x7d " true,
      lineMark "^\\+\x7b3\x7d" true,
      lineMark "^\\*\x7b15\x7d$" false] }
  let addition ← lineOf "addition" "^\\+"
  let deletion ← lineOf "deletion" "^-"
  let changed ← lineOf "addition" "^!"
  return { contains := some ([hunk,header,addition,deletion,changed].map Child.mode) }

def diff : Grammar := build { name := "Diff", aliases := ["patch"] } diffModes

end Highlight.Grammar.Bundled
