import Highlight.Format.Drawing
import Highlight.Format.Markup
import Highlight.Result
import Highlight.Tree.Json

/-! Output formats, by name. -/
namespace Highlight

inductive Format where
  | html
  | json
  | treeviz
  deriving DecidableEq, Repr

/-- A result and the runner-up of its detection, if there is one. -/
structure Outcome where
  best : Result
  runnerUp : Option Result := none

namespace Format

def name : Format → String
  | html => "html"
  | json => "json"
  | treeviz => "treeviz"

def description : Format → String
  | html => "HTML with one <span> per classed scope"
  | json => "Token tree and result metadata as JSON"
  | treeviz => "Visual tree representation with connectors and Unicode icons"

/-- The markup of a result. That of an illegal one is the plain text, since its tree stops short. -/
def renderHtml (settings : Settings) (r : Result) : String :=
  Markup.fix settings
    (if r.illegal.isSome then Html.escape r.code
      else Html.render settings.classPrefix (.root r.tree))

/-- What is known of a result, as a JSON value. -/
def report (o : Outcome) : Json :=
  .object [
    ("language",.string o.best.language),
    ("relevance",.number o.best.relevance),
    ("illegal",.bool o.best.illegal.isSome),
    ("second_best",(o.runnerUp.map (Json.string ·.language)).getD .null),
    ("tree",(Tree.root o.best.tree).toJson)]

def render (f : Format) (settings : Settings) (o : Outcome) : String :=
  match f with
  | html => renderHtml settings o.best
  | json => (report o).sortFields.pretty
  | treeviz => Drawing.render o.best.language o.best.relevance o.best.tree

end Format

inductive FormatError where
  | notFound (name : String)
  deriving DecidableEq, Repr

def FormatError.message : FormatError → String
  | notFound name => s!"format '{name}' not found"

/-- The formats on offer, in the order of their names, and the settings they follow. -/
structure FormatRegistry where
  settings : Settings := {}
  formats : List Format := []

namespace FormatRegistry

def builtIn (settings : Settings) : FormatRegistry :=
  { settings, formats := [.html,.json,.treeviz] }

def find? (r : FormatRegistry) (name : String) : Option Format :=
  r.formats.find? (fun f => f.name == name)

def names (r : FormatRegistry) : List String := r.formats.map Format.name

def render (r : FormatRegistry) (o : Outcome) (name : String) : Except FormatError String :=
  match r.find? name with
  | some f => .ok (f.render r.settings o)
  | none => .error (.notFound name)

end FormatRegistry
end Highlight
