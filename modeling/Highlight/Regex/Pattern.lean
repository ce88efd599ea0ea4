import Highlight.Regex.CharSet
import Highlight.Text.Source

/-! Patterns after reading: the constructs that the two matchers run. -/
namespace Highlight.Regex

/-- Conditions on a position that consume nothing. -/
inductive Assertion where
  | textStart | textEnd | lineStart | lineEnd | wordBoundary | notWordBoundary
  deriving DecidableEq, Repr

/-- Where a look-around searches: from the position on, or for text of a fixed width before it. -/
inductive Direction where
  | ahead
  | behind (width : Nat)
  deriving DecidableEq, Repr

/-- How far before a position a look-around starts. -/
def Direction.width : Direction → Nat
  | ahead => 0
  | behind width => width

inductive Pattern where
  | empty
  | set (s : CharSet)
  | assert (a : Assertion)
  | cat (p q : Pattern)
  | alt (p q : Pattern)
  /-- A capture group; groups are numbered from one. -/
  | group (index : Nat) (p : Pattern)
  /-- Between `least` and `most` rounds, without an upper bound if `most` is absent. -/
  | loop (p : Pattern) (least : Nat) (most : Option Nat) (greedy : Bool)
  /-- A look-around. A settled body is plain, so that its first outcome is final. -/
  | look (direction : Direction) (negated settled : Bool) (p : Pattern)
  | backref (index : Nat)
  /-- The first outcome of the body and no other; settled as for look-around. -/
  | atomic (settled : Bool) (p : Pattern)
  deriving DecidableEq, Inhabited, Repr

namespace Pattern

/-- Concatenation and alternation of lists, nested to the right. -/
def cats : List Pattern → Pattern
  | [] => empty
  | [p] => p
  | p :: rest => cat p (cats rest)

def alts : List Pattern → Pattern
  | [] => empty
  | [p] => p
  | p :: rest => alt p (alts rest)

/-- The alternatives of a pattern, in order. -/
def branches : Pattern → List Pattern
  | alt p q => p :: branches q
  | p => [p]

/-- The number of characters of every match, if it is fixed. -/
def width? : Pattern → Option Nat
  | empty | assert _ | look .. => some 0
  | set _ => some 1
  | cat p q => return (← p.width?) + (← q.width?)
  | alt p q => do
    let m ← p.width?
    if q.width? = some m then some m else none
  | group _ p | atomic _ p => p.width?
  | loop p least most _ => do
    let m ← p.width?
    if most = some least then some (m * least) else none
  | backref _ => none

/-- Whether a pattern is left to the plain matcher, `referenced` being the groups that
back-references name. -/
def isPlain (referenced : List Nat) : Pattern → Bool
  | empty | set _ => true
  | assert a => a != .wordBoundary && a != .notWordBoundary
  | cat p q | alt p q => p.isPlain referenced && q.isPlain referenced
  | group n p => !referenced.contains n && p.isPlain referenced
  | loop p .. => p.isPlain referenced
  | look .. | backref _ | atomic .. => false

/-- Mark the look-arounds and atomic groups whose body is plain. -/
def settle (referenced : List Nat) : Pattern → Pattern
  | cat p q => cat (p.settle referenced) (q.settle referenced)
  | alt p q => alt (p.settle referenced) (q.settle referenced)
  | group n p => group n (p.settle referenced)
  | loop p least most greedy => loop (p.settle referenced) least most greedy
  | look d negated _ p => look d negated (p.isPlain referenced) (p.settle referenced)
  | atomic _ p => atomic (p.isPlain referenced) (p.settle referenced)
  | p => p

/-- No loop asks for more rounds than it allows. -/
def boundsOrdered : Pattern → Bool
  | empty | set _ | assert _ | backref _ => true
  | cat p q | alt p q => p.boundsOrdered && q.boundsOrdered
  | group _ p | look _ _ _ p | atomic _ p => p.boundsOrdered
  | loop p least most _ => p.boundsOrdered && most.all (least ≤ ·)

/-- The parts that the plain matcher runs have ordered bounds. -/
def settledBoundsOrdered : Pattern → Bool
  | empty | set _ | assert _ | backref _ => true
  | cat p q | alt p q => p.settledBoundsOrdered && q.settledBoundsOrdered
  | group _ p | loop p _ _ _ => p.settledBoundsOrdered
  | look _ _ settled p | atomic settled p =>
    if settled then p.boundsOrdered else p.settledBoundsOrdered

end Pattern

/-- The text that a pattern runs on. What lies before `origin` is out of sight. -/
structure Haystack where
  text : Source
  origin : Nat := 0

namespace Haystack

def size (t : Haystack) : Nat := t.text.size

def charAt? (t : Haystack) (position : Nat) : Option Char := t.text[position]?

def charBefore? (t : Haystack) (position : Nat) : Option Char :=
  if position ≤ t.origin then none else t.text[position - 1]?

/-- Whether the position lies between a word character and something else. -/
def isBoundary (t : Haystack) (position : Nat) : Bool :=
  (t.charBefore? position).any Text.isWord != (t.charAt? position).any Text.isWord

end Haystack

def Assertion.holds (t : Haystack) (position : Nat) : Assertion → Bool
  | .textStart => position == t.origin
  | .textEnd => position == t.size
  | .lineStart => position == t.origin || t.charBefore? position == some '\n'
  | .lineEnd => position == t.size || t.charAt? position == some '\n'
  | .wordBoundary => t.isBoundary position
  | .notWordBoundary => !t.isBoundary position

/-- A point reached by a match: the position, and where groups were last opened and closed, most
recent first. -/
structure Spot where
  position : Nat
  opened : List (Nat × Nat) := []
  closed : List (Nat × Nat) := []
  deriving DecidableEq, Repr

namespace Spot

def advance (s : Spot) : Spot := { s with position := s.position + 1 }
def moveTo (s : Spot) (position : Nat) : Spot := { s with position }
def openGroup (s : Spot) (n : Nat) : Spot := { s with opened := (n,s.position) :: s.opened }
def closeGroup (s : Spot) (n : Nat) : Spot := { s with closed := (n,s.position) :: s.closed }

/-- The span of a group that took part in the match. -/
def capture? (s : Spot) (n : Nat) : Option (Nat × Nat) := do
  return (← s.opened.lookup n,← s.closed.lookup n)

end Spot

/-- Where the text of a group ends if it is repeated at `position`. -/
def Haystack.repeatEnd? (t : Haystack) (s : Spot) (n : Nat) : Option Nat := do
  let (start,stop) ← s.capture? n
  let finish := s.position + (stop - start)
  if start ≤ stop && finish ≤ t.size &&
      t.text.extract start stop == t.text.extract s.position finish then some finish else none

end Highlight.Regex
