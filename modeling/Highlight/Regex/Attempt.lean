import Highlight.Regex.Ways

/-!
Matching by backtracking. Each return to an earlier choice costs one unit of a budget; a search
whose budget is spent gives up, which is not the same as finding nothing.
-/
namespace Highlight.Regex

/-- How an attempt ends; `left` is what remains of the budget. -/
inductive Attempt where
  | found (s : Spot) (left : Nat)
  | failed (left : Nat)
  | spent
  deriving DecidableEq, Repr

namespace Attempt

/-- Return to a choice after a failure. -/
def orElse (a : Attempt) (other : Nat → Attempt) : Attempt :=
  match a with
  | failed (left + 1) => other left
  | failed 0 => spent
  | a => a

/-- Go on where a look-around finds nothing, and fail where it finds something. -/
def negate (a : Attempt) (other : Nat → Attempt) : Attempt :=
  match a with
  | found _ left => failed left
  | a => a.orElse other

@[simp] theorem orElse_found (s : Spot) (left : Nat) (other : Nat → Attempt) :
    (found s left).orElse other = found s left := rfl
@[simp] theorem orElse_failed (left : Nat) (other : Nat → Attempt) :
    (failed (left + 1)).orElse other = other left := rfl
@[simp] theorem orElse_spent (other : Nat → Attempt) : spent.orElse other = spent := rfl

end Attempt

/-- What is left to match, given the spot reached and the budget. -/
abbrev Rest := Spot → Nat → Attempt

/-- Exactly `n` rounds of a body. -/
def attemptRounds (body : Spot → Nat → Rest → Attempt) : Nat → Spot → Nat → Rest → Attempt
  | 0, s, b, rest => rest s b
  | n + 1, s, b, rest => body s b (fun s b => attemptRounds body n s b rest)

/-- Up to `n` further rounds. Where the loop is unbounded, `n` only bounds the recursion and a round
that consumes nothing fails. -/
def attemptMore (body : Spot → Nat → Rest → Attempt) (greedy unbounded : Bool) :
    Nat → Spot → Nat → Rest → Attempt
  | 0, s, b, rest => rest s b
  | n + 1, s, b, rest =>
    let again (b : Nat) : Attempt := body s b (fun next b =>
      if unbounded && next.position == s.position then .failed b
      else attemptMore body greedy unbounded n next b rest)
    if greedy then (again b).orElse (rest s) else (rest s b).orElse again

/-- Continue after a look-around that held at `s` with the groups of `r`. -/
def resumeAt (s : Spot) (rest : Rest) : Rest := fun r b => rest (r.moveTo s.position) b

/-- Continue from the best of the ways, if there is any. -/
def takeFirst (b : Nat) (rest : Rest) : List Spot → Attempt
  | r :: _ => rest r b
  | [] => .failed b

/-- Match the pattern at `s` and then the rest. -/
def Pattern.attempt (t : Haystack) : Pattern → Spot → Nat → Rest → Attempt
  | empty, s, b, rest => rest s b
  | set cs, s, b, rest =>
    match t.charAt? s.position with
    | some c => if cs.contains c then rest s.advance b else .failed b
    | none => .failed b
  | assert a, s, b, rest => if a.holds t s.position then rest s b else .failed b
  | cat p q, s, b, rest => p.attempt t s b (fun s b => q.attempt t s b rest)
  | alt p q, s, b, rest => (p.attempt t s b rest).orElse (fun b => q.attempt t s b rest)
  | group n p, s, b, rest => p.attempt t (s.openGroup n) b (fun s b => rest (s.closeGroup n) b)
  | loop p least most greedy, s, b, rest =>
    match most with
    | some most => attemptRounds (p.attempt t) (min least most) s b (fun s b =>
        attemptMore (p.attempt t) greedy false (most - least) s b rest)
    | none => attemptRounds (p.attempt t) least s b (fun s b =>
        attemptMore (p.attempt t) greedy true (t.size + 1 - s.position) s b rest)
  | look direction negated settled p, s, b, rest =>
    let start := s.moveTo (s.position - direction.width)
    let inside (next : Rest) : Attempt :=
      if s.position < t.origin + direction.width then .failed b
      else if settled then takeFirst b next (p.ways t start)
      else p.attempt t start b next
    if negated then (inside .found).negate (rest s) else inside (resumeAt s rest)
  | backref n, s, b, rest =>
    match t.repeatEnd? s n with
    | some finish => rest (s.moveTo finish) b
    | none => .failed b
  | atomic settled p, s, b, rest =>
    if settled then takeFirst b rest (p.ways t s)
    else
      match p.attempt t s b .found with
      | .found r b => rest r b
      | outcome => outcome

end Highlight.Regex
