import Highlight.Grammar.Definition

/-!
Modes that many grammars share. Each adds what it needs to the grammar under construction and
gives the place of the mode it is named for.
-/
namespace Highlight.Grammar

/-- A step in the construction of a grammar. -/
abbrev Build (α : Type) := StateM Grammar α

def addMode (m : Mode) : Build ModeId := modifyGet fun g : Grammar => g.add m

def defineMode (id : ModeId) (m : Mode) : Build Unit := modify fun g : Grammar => g.define id m

/-- Build the modes of a grammar; the last step gives the top mode. -/
def build (g : Grammar) (modes : Build Mode) : Grammar :=
  let (root,g) := modes.run g
  { g with root }

namespace Shared

def identifier : String := "[a-zA-Z]\\w*"
def underscoreIdentifier : String := "[a-zA-Z_]\\w*"
def plainNumber : String := "\\b\\d+(\\.\\d+)?"

/-- Hexadecimal, octal, decimal and floating-point numbers. -/
def programNumber : String :=
  "(-?)(\\b0[xX][a-fA-F0-9]+|(\\b\\d+(\\.\\d*)?|\\.\\d+)([eE][-+]?\\d+)?)"

def phrasalPattern : String :=
  "\\b(a|an|the|are|I'm|isn't|don't|doesn't|won't|but|just|should|pretty|simply|enough|gonna|" ++
    "going|wtf|so|such|will|you|your|they|like|more)\\b"

def cssUnits : String :=
  "(%|em|ex|ch|rem|vw|vh|vmin|vmax|cm|mm|in|pt|pc|px|deg|grad|rad|turn|s|ms|Hz|kHz|dpi|dpcm|dppx)?"

/-- The settings of a mode in which only a begin pattern is set, without relevance. -/
def weightless (beginPattern : String) : Mode := { beginPattern, relevance := some 0 }

def backslashEscape : Build ModeId := addMode (weightless "\\\\[\\s\\S]")

/-- A string between delimiters that ends on its line. -/
def quoted (delimiter : String) : Build ModeId := do
  let escape ← backslashEscape
  addMode {
    className := "string", beginPattern := delimiter, endPattern := delimiter, illegal := "\\n",
    contains := some [.mode escape] }

def aposString : Build ModeId := quoted "'"
def quoteString : Build ModeId := quoted "\""

/-- Common English words, each of which speaks for a comment. -/
def phrasalWords : Build ModeId := addMode { beginPattern := phrasalPattern }

/-- A comment with phrasal words and marks such as `TODO:` inside, after what `overrides`
contains. -/
def comment (beginPattern endPattern : Option String) (overrides : Mode) : Build ModeId := do
  let base : Mode := { className := "comment", beginPattern, endPattern, contains := some [] }
  let m := base.inherit overrides
  let phrasal ← phrasalWords
  let doctag ← addMode
    { weightless "(?:TODO|FIXME|NOTE|BUG|XXX):" with className := "doctag" }
  addMode { m with contains := some (m.contains.getD [] ++ [.mode phrasal,.mode doctag]) }

def lineComment : Build ModeId := comment "//" "$" {}
def blockComment : Build ModeId := comment "/\\*" "\\*/" {}
def hashComment : Build ModeId := comment "#" "$" {}

def numberMode (pattern : String) : Build ModeId :=
  addMode { weightless pattern with className := "number" }

def number : Build ModeId := numberMode plainNumber
def cNumber : Build ModeId := numberMode programNumber
def binaryNumber : Build ModeId := numberMode "\\b(0b[01]+)"
def cssNumber : Build ModeId := numberMode (plainNumber ++ cssUnits)

/-- A regular expression between slashes, provided that the closing slash is on the same line. -/
def regexLiteral : Build ModeId := do
  let escape ← backslashEscape
  let bracketed ← addMode {
    beginPattern := "\\[", endPattern := "\\]", relevance := some 0,
    contains := some [.mode escape] }
  let literal ← addMode {
    className := "regexp", beginPattern := "/", endPattern := "/[gimuy]*", illegal := "\\n",
    contains := some [.mode escape,.mode bracketed] }
  addMode { beginPattern := "(?=/[^/\\n]*/)", contains := some [.mode literal] }

def title : Build ModeId := addMode { weightless identifier with className := "title" }

def underscoreTitle : Build ModeId :=
  addMode { weightless underscoreIdentifier with className := "title" }

/-- Takes up member accesses, so that they are not read as keywords. -/
def methodGuard : Build ModeId := addMode (weightless ("\\.\\s*" ++ underscoreIdentifier))

end Shared
end Highlight.Grammar
