import Highlight.Grammar.Shared

/-! JSON; comments are let through. -/
namespace Highlight.Grammar.Bundled

open Shared

def jsonModes : Build Mode := do
  let literals := Keywords.classes [("literal","true false null")]
  let lineComment ← lineComment
  let blockComment ← blockComment
  let string ← quoteString
  let number ← cNumber
  let object ← addMode {}
  let array ← addMode {}
  let values := [string,number,object,array,lineComment,blockComment].map Child.mode
  let value : Mode := {
    endPattern := some ",", contains := some values, keywords := some literals,
    switches := { Switches.unset with endsWithParent := some true, excludeEnd := some true } }
  let escape ← backslashEscape
  let name ← addMode {
    className := some "attr", beginPattern := some "\"", endPattern := some "\"",
    illegal := some "\\n", contains := some [.mode escape] }
  let member ← addMode (value.inherit { beginPattern := some ":" })
  let element ← addMode value
  defineMode object {
    beginPattern := some "\\\x7b", endPattern := some "\\\x7d", illegal := some "\\S",
    contains := some ([name,member,lineComment,blockComment].map Child.mode) }
  defineMode array {
    beginPattern := some "\\[", endPattern := some "\\]", illegal := some "\\S",
    contains := some [.mode element] }
  return { contains := some values, keywords := some literals, illegal := some "\\S" }

def json : Grammar := build { name := "JSON" } jsonModes

end Highlight.Grammar.Bundled
