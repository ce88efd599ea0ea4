import Highlight.Regex.Basic
import Highlight.Settings

/-!
Markup for display outside preformatted blocks. Tabs in the indentation of a line are replaced, and
line feeds become line break tags. One pattern finds both.
-/
namespace Highlight

/-- The text from `position` on, with what stands at each of the spans replaced. -/
def Source.substitute (text : Source) (replace : String → String) : Nat → List (Nat × Nat) → String
  | position, [] => text.slice position text.size
  | position, (start,stop) :: spans =>
    text.slice position start ++ replace (text.slice start stop) ++
      text.substitute replace stop spans

namespace Markup

theorem fixable_compiles : (Regex.compile "(?m)\n|^(?:<[^>]+>|\t)*").toOption.isSome := rfl

/-- A line feed, or the tags and tabs that a line starts with. -/
def fixable : Regex := (Regex.compile "(?m)\n|^(?:<[^>]+>|\t)*").toOption.get fixable_compiles

/-- The tags and tabs that a line starts with, every tab replaced. -/
def replaceTabs (tab : Option String) (run : List Char) : List Char :=
  match tab with
  | none => run
  | some tab => run.flatMap (fun c => if c = '\t' then tab.toList else [c])

/-- What the settings put for a match. -/
def replacement (s : Settings) (matched : String) : String :=
  if s.breakTags && matched == "\n" then "<br>"
  else String.ofList (replaceTabs s.tabReplacement matched.toList)

/-- Markup made fit for display as the settings ask. The pattern is plain, so no search gives up. -/
def fix (s : Settings) (markup : String) : String :=
  if s.tabReplacement.isNone && !s.breakTags then markup
  else
    match fixable.findAll (.ofString markup) with
    | .ok spans => (Source.ofString markup).substitute (replacement s) 0 spans
    | .error .gaveUp => markup

example : fix { tabReplacement := some "--" } "\t<b>\t</b>x\t\n\t" = "--<b>--</b>x\t\n--" := by
  decide +kernel
example : fix { breakTags := true } "a\n\nb" = "a<br><br>b" := by decide +kernel

end Markup
end Highlight
