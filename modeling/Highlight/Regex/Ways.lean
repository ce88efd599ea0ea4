import Highlight.Regex.Pattern

/-!
Matching without backtracking. A pattern and a starting spot give the list of all spots the
pattern can lead to, best first. Of several ways to one position only the best is kept: what
follows a plain pattern depends on the position alone, so the others could not succeed where it
fails. This bounds the work by a polynomial of the text's length.
-/
namespace Highlight.Regex

/-- Keep the first of the spots at each position. -/
def distinctSpots : List Spot → List Spot
  | [] => []
  | s :: rest => s :: (distinctSpots rest).filter (·.position != s.position)

/-- Every spot that a second step reaches from the results of the first. -/
def thenWays (first : List Spot) (step : Spot → List Spot) : List Spot :=
  match first with
  | [] => []
  | [s] => step s
  | first => distinctSpots (first.flatMap step)

/-- Exactly `n` rounds. -/
def roundWays (body : Spot → List Spot) : Nat → Spot → List Spot
  | 0, s => [s]
  | n + 1, s => thenWays (roundWays body n s) body

/-- Depth-first exploration of optional rounds: the heads of rounds already entered and the exits
found, last first. -/
structure Sweep where
  entered : List (Nat × Nat) := []
  found : List Spot := []

namespace Sweep

def enter (w : Sweep) (head : Nat × Nat) : Sweep := { w with entered := head :: w.entered }
def leave (w : Sweep) (s : Spot) : Sweep := { w with found := s :: w.found }

/-- Optional rounds from `s`. A greedy loop leaves after all further rounds, a lazy one before. In
an unbounded loop every round must consume something; the first argument bounds the rounds. -/
def run (body : Spot → List Spot) (greedy unbounded : Bool) : Nat → Spot → Sweep → Sweep
  | 0, s, w => w.leave s
  | n + 1, s, w =>
    let head := (if unbounded then 0 else n + 1,s.position)
    if w.entered.contains head then w
    else
      let rounds (w : Sweep) : Sweep := (body s).foldl
        (fun w next =>
          if unbounded && next.position == s.position then w
          else run body greedy unbounded n next w) w
      if greedy then (rounds (w.enter head)).leave s else rounds ((w.enter head).leave s)

/-- A first round that may be empty, after which an unbounded loop is left, else more rounds. -/
def first (body : Spot → List Spot) (greedy : Bool) (room : Nat) (s : Spot) (w : Sweep) : Sweep :=
  (body s).foldl
    (fun w next =>
      if next.position == s.position then
        if w.entered.contains (0,s.position) then w
        else (w.enter (0,s.position)).leave next
      else run body greedy true room next w) w

def results (w : Sweep) : List Spot := distinctSpots w.found.reverse

end Sweep

/-- A loop over `body` with at least `least` and at most `most` rounds. -/
def loopWays (body : Spot → List Spot) (least : Nat) (most : Option Nat) (greedy : Bool)
    (room : Nat) (s : Spot) : List Spot :=
  match most with
  | some most =>
    thenWays (roundWays body least s)
      (fun s => (Sweep.run body greedy false (most - least) s {}).results)
  | none =>
    let starts := roundWays body (least - 1) s
    let w : Sweep := starts.foldl (fun w s => w.first body greedy room s) {}
    if 0 < least then w.results
    else if greedy then distinctSpots (w.results ++ [s])
    else distinctSpots (s :: w.results)

/-- All spots that the pattern leads to from `s`, best first. -/
def Pattern.ways (t : Haystack) : Pattern → Spot → List Spot
  | empty, s => [s]
  | set cs, s =>
    match t.charAt? s.position with
    | some c => if cs.contains c then [s.advance] else []
    | none => []
  | assert a, s => if a.holds t s.position then [s] else []
  | cat p q, s => thenWays (p.ways t s) (q.ways t)
  | alt p q, s =>
    match p.ways t s with
    | [] => q.ways t s
    | found => distinctSpots (found ++ q.ways t s)
  | group n p, s => (p.ways t (s.openGroup n)).map (·.closeGroup n)
  | loop p least most greedy, s =>
    loopWays (p.ways t) least most greedy (t.size + 1 - s.position) s
  | look direction negated _ p, s =>
    let found :=
      if s.position < t.origin + direction.width then []
      else (p.ways t (s.moveTo (s.position - direction.width))).take 1
    if negated then (if found.isEmpty then [s] else []) else found.map (·.moveTo s.position)
  | backref n, s =>
    match t.repeatEnd? s n with
    | some finish => [s.moveTo finish]
    | none => []
  | atomic _ p, s => (p.ways t s).take 1

end Highlight.Regex
