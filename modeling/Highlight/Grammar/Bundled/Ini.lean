import Highlight.Grammar.Shared

/-! Settings files in sections, and their relatives. -/
namespace Highlight.Grammar.Bundled

open Shared

/-- A mode between two delimiters that are matched as written. -/
def delimited (delimiter : String) (relevance : Option Nat) : Mode :=
  { beginPattern := some delimiter, endPattern := some delimiter, relevance }

def iniModes : Build Mode := do
  let numbers ← addMode {
    className := some "number", relevance := some 0,
    variants := some [
      { beginPattern := some "([\\+\\-]+)?[\\d]+_[\\d_]+" },
      { beginPattern := some plainNumber }] }
  let comments ← comment none none {}
  modify fun g : Grammar => g.modifyMode comments fun m => { m with
    variants := some [
      { beginPattern := some ";", endPattern := some "$" },
      { beginPattern := some "#", endPattern := some "$" }] }
  let references ← addMode {
    className := some "variable",
    variants := some [
      { beginPattern := some "\\$[\\w\\d\"][\\w\\d_]*" },
      { beginPattern := some "\\$\\\x7b(.*?)\\\x7d" }] }
  let literals ← addMode
    { className := some "literal", beginPattern := some "\\bon|off|true|false|yes|no\\b" }
  let escape ← backslashEscape
  let strings ← addMode {
    className := some "string", contains := some [.mode escape],
    variants := some [
      delimited "'''" (some 10),delimited "\"\"\"" (some 10),delimited "\"" none,
      delimited "'" none] }
  let array ← addMode {
    beginPattern := some "\\[", endPattern := some "\\]", relevance := some 0,
    contains := some
      ([comments,literals,references,strings,numbers].map Child.mode ++ [Child.self]) }
  let sectionHeader ← addMode
    { className := some "section", beginPattern := some "\\[+", endPattern := some "\\]+" }
  let value ← addMode {
    endPattern := some "$",
    contains := some ([comments,array,literals,references,strings,numbers].map Child.mode) }
  let key ← addMode {
    className := some "attr", beginPattern := some "^[a-z0-9\\[\\]_\\.-]+(?=\\s*=\\s*)",
    starts := some value }
  return {
    contains := some ([comments,sectionHeader,key].map Child.mode), illegal := some "\\S" }

def ini : Grammar :=
  build { name := "TOML, also INI", aliases := ["toml"], ignoreCase := true } iniModes

end Highlight.Grammar.Bundled
