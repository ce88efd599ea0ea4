import Highlight.Grammar.Shared

/-! HTTP requests and responses. The body goes to whichever grammar fits it best. -/
namespace Highlight.Grammar.Bundled

def httpVersion : String := "HTTP/[0-9\\.]+"

def httpModes : Build Mode := do
  let status ← addMode
    { className := some "number", beginPattern := some "\\b\\d\x7b3\x7d\\b" }
  let statusLine ← addMode {
    beginPattern := some ("^" ++ httpVersion), endPattern := some "$",
    contains := some [.mode status] }
  let target ← addMode {
    className := some "string", beginPattern := some " ", endPattern := some " ",
    switches := { Switches.unset with excludeBegin := some true, excludeEnd := some true } }
  let version ← addMode { beginPattern := some httpVersion }
  let method ← addMode { className := some "keyword", beginPattern := some "[A-Z]+" }
  let requestLine ← addMode {
    beginPattern := some ("^[A-Z]+ (.*?) " ++ httpVersion ++ "$"), endPattern := some "$",
    contains := some ([target,version,method].map Child.mode),
    switches := { Switches.unset with returnBegin := some true } }
  let headerValue ← addMode { endPattern := some "$", relevance := some 0 }
  let headerName ← addMode {
    className := some "attribute", beginPattern := some "^\\w", endPattern := some ": ",
    illegal := some "\\n|\\s|=", starts := some headerValue,
    switches := { Switches.unset with excludeEnd := some true } }
  let contents ← addMode {
    subLanguage := some (.auto []),
    switches := { Switches.unset with endsWithParent := some true } }
  let body ← addMode { beginPattern := some "\\n\\n", starts := some contents }
  return {
    contains := some ([statusLine,requestLine,headerName,body].map Child.mode),
    illegal := some "\\S" }

def http : Grammar := build { name := "HTTP", aliases := ["https"] } httpModes

end Highlight.Grammar.Bundled
