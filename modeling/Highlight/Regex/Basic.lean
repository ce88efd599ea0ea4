import Highlight.Regex.Attempt
import Highlight.Regex.Reader

/-!
Compiled regular expressions and the search for their first match: the leftmost one and, among
those that start there, the first alternative. Plain patterns always answer; the others may give
up.
-/
namespace Highlight

/-- A pattern that has been read and checked. -/
structure Regex where
  pattern : Regex.Pattern
  groups : Nat
  plain : Bool
  deriving Inhabited, Repr

namespace Regex

/-- The search ran out of its budget. -/
inductive GaveUp where
  | gaveUp
  deriving DecidableEq, Repr

/-- A match: where it starts, and the spot where it ends. -/
structure Found where
  start : Nat
  last : Spot
  deriving DecidableEq, Repr

namespace Found

def stop (f : Found) : Nat := f.last.position
def capture? (f : Found) (n : Nat) : Option (Nat × Nat) := f.last.capture? n

/-- The spans of the whole match and of groups one to `groups`. -/
def spans (f : Found) (groups : Nat) : List (Option (Nat × Nat)) :=
  some (f.start,f.stop) :: (List.range groups).map (fun n => f.capture? (n + 1))

end Found

/-- Returns to an earlier choice that one search may make. -/
def searchBudget : Nat := 1000000

/-- What a reader has read, with the bounds of repetitions checked. -/
def ofReader (reader : Reader) : Except PatternError Regex := do
  let pattern ← reader.finish
  let plain := pattern.isPlain reader.referenced
  let pattern := pattern.settle reader.referenced
  let ordered := if plain then pattern.boundsOrdered else pattern.settledBoundsOrdered
  if ordered then return { pattern, groups := reader.groups, plain }
  else .error .roundsOutOfOrder

/-- Compile a pattern. -/
def compile (source : String) : Except PatternError Regex := do
  let cs := source.toList
  ofReader (← ({} : Reader).readAll (cs.length + 1) cs)

/-- Search a plain pattern at `n` successive positions. -/
def searchPlain (p : Pattern) (t : Haystack) : Nat → Nat → Option Found
  | 0, _ => none
  | n + 1, start =>
    match (p.ways t { position := start }).head? with
    | some last => some { start, last }
    | none => searchPlain p t n (start + 1)

/-- Search any pattern at `n` successive positions. Moving on to the next one is a return. -/
def searchBacktracking (p : Pattern) (t : Haystack) : Nat → Nat → Nat → Except GaveUp (Option Found)
  | 0, _, _ => .ok none
  | n + 1, start, budget =>
    match p.attempt t { position := start } budget .found with
    | .found last _ => .ok (some { start, last })
    | .spent | .failed 0 => .error .gaveUp
    | .failed (left + 1) => searchBacktracking p t n (start + 1) left

/-- The first match that starts at or after `start`. -/
def search (r : Regex) (t : Haystack) (start : Nat) : Except GaveUp (Option Found) :=
  if r.plain then .ok (searchPlain r.pattern t (t.size + 1 - start) start)
  else searchBacktracking r.pattern t (t.size + 1 - start) start searchBudget

/-- The first match in a text, its start being at least `start`. -/
def find (r : Regex) (text : Source) (start : Nat) : Except GaveUp (Option Found) :=
  r.search { text } start

/-- Whether the pattern matches in what lies at and after `origin`. -/
def matchesIn (r : Regex) (text : Source) (origin : Nat) : Except GaveUp Bool :=
  return (← r.search { text, origin } origin).isSome

/-- Successive matches that do not overlap. An empty match right after another match is passed
over. The first argument bounds the number of searches. -/
def matchesFrom (r : Regex) (text : Source) :
    Nat → Nat → Option Nat → Except GaveUp (List (Nat × Nat))
  | 0, _, _ => .ok []
  | n + 1, start, previous => do
    if text.size < start then return []
    else
      match ← r.find text start with
      | none => return []
      | some f =>
        if f.start = f.stop then
          if previous = some f.stop then matchesFrom r text n (f.stop + 1) previous
          else return (f.start,f.stop) :: (← matchesFrom r text n (f.stop + 1) (some f.stop))
        else return (f.start,f.stop) :: (← matchesFrom r text n f.stop (some f.stop))

def findAll (r : Regex) (text : Source) : Except GaveUp (List (Nat × Nat)) :=
  r.matchesFrom text (text.size + 2) 0 none

end Regex

/-- The characters that a literal text marks with a backslash. -/
def Regex.isMeta (c : Char) : Bool :=
  "\\.+*?()|[]\x7b\x7d^$#&-~".toList.contains c

/-- The text of a pattern that matches `literal` and nothing else. -/
def Regex.escape (literal : String) : String :=
  String.ofList (literal.toList.flatMap (fun c => if isMeta c then ['\\',c] else [c]))

/-- A pattern of a grammar: line anchors hold at every line, and case may be ignored. -/
def Regex.compileRule (source : String) (ignoreCase : Bool) : Except Regex.PatternError Regex :=
  compile ((if ignoreCase then "(?mi)" else "(?m)") ++ source)

/-- A pattern of a grammar that only matches where the text starts. -/
def Regex.compileAnchored (source : String) (ignoreCase : Bool) :
    Except Regex.PatternError Regex :=
  compileRule ("\\A(?:" ++ source ++ ")") ignoreCase

end Highlight
