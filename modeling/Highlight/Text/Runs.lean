/-!
Tables over code points, kept as sorted breakpoints. A set of code points is the list of the
points where membership changes; a code point belongs to it when an odd number of breakpoints
lie at or below it.
-/
namespace Highlight.Text

/-- The numbers of a text, in decimal and separated by single blanks. -/
def numbers (text : String) : List Nat :=
  let (done,last) := text.toList.foldl
    (fun (done,n) c =>
      if c.isDigit then (done,10 * n + (c.toNat - '0'.toNat)) else (n :: done,0)) ([],0)
  (last :: done).reverse

/-- Running totals of a list of distances. -/
def totals (distances : List Nat) : Array Nat :=
  (distances.foldl (fun (acc,n) d => (acc.push (n + d),n + d)) ((#[] : Array Nat),0)).1

/-- Number of entries of the ascending array `points` in `[0, hi)` that are at most `c`, given
that those below `lo` are. The first argument bounds the number of halvings. -/
def rankWithin (points : Array Nat) (c : Nat) : Nat → Nat → Nat → Nat
  | 0, lo, _ => lo
  | fuel + 1, lo, hi =>
    if hi ≤ lo then lo
    else
      let mid := (lo + hi) / 2
      if points.getD mid 0 ≤ c then rankWithin points c fuel (mid + 1) hi
      else rankWithin points c fuel lo mid

/-- Number of entries of the ascending array `points` that are at most `c`. -/
def rank (points : Array Nat) (c : Nat) : Nat :=
  rankWithin points c 32 0 points.size

/-- A set of code points given by the distances between its breakpoints. -/
structure PointSet where
  breakpoints : Array Nat

namespace PointSet

def ofText (text : String) : PointSet := ⟨totals (numbers text)⟩

def contains (s : PointSet) (c : Char) : Bool :=
  rank s.breakpoints c.toNat % 2 == 1

end PointSet

/-- A run of code points `first, first + stride, …` that all move by the same amount. -/
structure ShiftRun where
  first : Nat
  count : Nat
  stride : Nat
  shift : Int

namespace ShiftRun

def last (r : ShiftRun) : Nat := r.first + (r.count - 1) * r.stride

def covers (r : ShiftRun) (c : Nat) : Bool :=
  r.first ≤ c && c ≤ r.last && (c - r.first) % r.stride == 0

/-- Where the run sends a code point that it covers. -/
def image (r : ShiftRun) (c : Nat) : Char := Char.ofNat (Int.toNat (c + r.shift))

/-- The code points that the run sends to `c`. -/
def preimage? (r : ShiftRun) (c : Nat) : Option Char :=
  let source := Int.toNat (c - r.shift)
  if r.covers source then some (Char.ofNat source) else none

end ShiftRun

/-- The image of a character under the first run that covers it. -/
def shiftBy (runs : List ShiftRun) (c : Char) : Char :=
  match runs.find? (·.covers c.toNat) with
  | some r => r.image c.toNat
  | none => c

example : numbers "7 0 12" = [7,0,12] := by decide
example : totals [3,1,4] = #[3,4,8] := by decide
example : ((PointSet.ofText "65 26 6 26").contains 'Q',(PointSet.ofText "65 26").contains 'q') =
    (true,false) := by decide

end Highlight.Text
