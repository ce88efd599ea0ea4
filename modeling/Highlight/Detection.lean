import Highlight.Format.Registry

/-!
Detection: the candidate whose result has the greatest relevance wins. Of two with the same
relevance the earlier candidate stays ahead, and results without relevance do not count.
-/
namespace Highlight

/-- The best two results so far. -/
structure Ranking where
  best : Option Result := none
  second : Option Result := none

namespace Ranking

def relevance (r : Option Result) : Nat := (r.map Result.relevance).getD 0

/-- Take a result into account. -/
def add (ranking : Ranking) (r : Result) : Ranking :=
  if relevance ranking.best < r.relevance then { best := some r, second := ranking.best }
  else if relevance ranking.second < r.relevance then { ranking with second := some r }
  else ranking

/-- The winner, or plain text if no candidate scores. -/
def outcome (ranking : Ranking) (code : String) : Outcome :=
  { best := ranking.best.getD (.plaintext Result.plaintextName code), runnerUp := ranking.second }

end Ranking
end Highlight
