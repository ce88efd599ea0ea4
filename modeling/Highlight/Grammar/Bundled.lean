import Highlight.Grammar.Bundled.Diff
import Highlight.Grammar.Bundled.Http
import Highlight.Grammar.Bundled.Ini
import Highlight.Grammar.Bundled.Json
import Highlight.Registry

/-! The bundled grammars, by the names they are registered under. -/
namespace Highlight

namespace Grammar.Bundled

def all : List (String × Grammar) :=
  [("json",json),("diff",diff),("ini",ini),("http",http)]

end Grammar.Bundled

namespace Registry

def bundled : Registry := Grammar.Bundled.all.foldl (fun r (name,g) => r.insert name g) {}

end Registry
end Highlight
