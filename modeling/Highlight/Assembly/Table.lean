import Highlight.Assembly.Draft

/-! Node tables from drafts: every draft gets its rules and compiled patterns, in order. -/
namespace Highlight.Assembly

def defaultLexemes : String := "\\w+"

/-- The rules of a draft: the begins of its children, its terminator and its illegal pattern. -/
def rulesOf (drafts : Array Draft) (d : Draft) : List Rules.Rule :=
  d.children.map (fun child =>
    { pattern := ((drafts.getD child default).beginPattern).getD "", kind := .begins child }) ++
  (if d.terminator.isEmpty then [] else [{ pattern := d.terminator, kind := .ends }]) ++
  (match d.mode.illegal with
    | some illegal => [{ pattern := illegal, kind := .illegal }]
    | none => [])

/-- Name the pattern that a compilation fails on. -/
def blame (pattern : String) (r : Except Regex.PatternError Regex) : Except GrammarError Regex :=
  r.mapError (.invalidPattern pattern)

/-- The node of a draft. Its end is compiled first, then its lexemes, then its rules. -/
def nodeOf (drafts : Array Draft) (ignoreCase : Bool) (d : Draft) : Except GrammarError Node := do
  let endRegex ← d.endPattern.mapM fun p => blame p (Regex.compileAnchored p ignoreCase)
  let lexemes := d.mode.lexemes.getD defaultLexemes
  let lexemes ← blame lexemes (Regex.compileRule lexemes ignoreCase)
  let rules ← Rules.RuleSet.build (rulesOf drafts d) ignoreCase
  return {
    className := d.mode.className, beginPattern := d.beginPattern, endRegex,
    keywords := d.keywords.map (KeywordTable.ofKeywords · ignoreCase), lexemes,
    relevance := d.mode.relevance.getD 1, switches := d.mode.switches.resolve,
    subLanguage := d.mode.subLanguage, beginGuard := d.mode.beginGuard, starts := d.starts, rules }

end Highlight.Assembly

namespace Highlight

/-- Assemble the node table of a grammar. -/
def Grammar.assemble (g : Grammar) : Except GrammarError NodeTable := do
  let drafts ← Assembly.draftAll g
  let nodes ← drafts.mapM (Assembly.nodeOf drafts g.ignoreCase)
  return { name := g.name, ignoreCase := g.ignoreCase, nodes }

end Highlight
