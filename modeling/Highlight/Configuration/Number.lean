/-!
Numbers with a point, kept in binary with 53 significant bits as usual, and their shortest decimal
text: the fewest digits that are read back as the same number, and of those the nearest.
-/
namespace Highlight.Configuration

/-- A number: `mantissa * 2 ^ exponent`, with its sign apart. -/
inductive Number where
  | finite (negative : Bool) (mantissa : Nat) (exponent : Int)
  | infinite (negative : Bool)
  | notANumber
  deriving DecidableEq, Repr

namespace Number

/-- A quotient to the nearest whole number; a half goes to the even neighbour. -/
def divideRound (n d : Nat) : Nat :=
  let q := n / d
  let twice := 2 * (n % d)
  if d < twice || (twice = d && q % 2 = 1) then q + 1 else q

/-- The fraction `n / d` times a power of two, as numerator and denominator. -/
def shift (n d : Nat) (power : Int) : Nat × Nat :=
  (n * Nat.pow 2 power.toNat,d * Nat.pow 2 (-power).toNat)

/-- The smallest exponent. -/
def leastExponent : Int := -1074

/-- The exponent that gives `n / d` a mantissa of 53 bits, if it is large enough. -/
def exponentOf (n d : Nat) : Int :=
  let guess : Int := (Nat.log2 n : Int) - Nat.log2 d - 52
  let (a,b) := shift n d (-guess)
  max leastExponent (if a / b < Nat.pow 2 52 then guess - 1 else guess)

/-- The number nearest to `n / d`. -/
def ofRatio (negative : Bool) (n d : Nat) : Number :=
  let e := exponentOf n d
  let (a,b) := shift n d (-e)
  let m := divideRound a b
  if 971 < e || (e = 971 && Nat.pow 2 53 ≤ m) then .infinite negative else .finite negative m e

/-- The number nearest to `digits * 10 ^ exponent`. Exponents far out of range are cut short. -/
def ofDecimal (negative : Bool) (digits : Nat) (exponent : Int) : Number :=
  if digits = 0 then .finite negative 0 0
  else
    let magnitude := exponent + (Nat.log2 digits * 30103 / 100000 : Nat)
    if 400 < magnitude then .infinite negative
    else if magnitude < -400 then .finite negative 0 0
    else ofRatio negative (digits * Nat.pow 10 exponent.toNat) (Nat.pow 10 (-exponent).toNat)

def isZero : Number → Bool
  | finite _ m _ => m = 0
  | _ => false

/-- Whether `k * 10 ^ p` is read back as `m * 2 ^ e`. -/
def readsBack (m : Nat) (e : Int) (p : Int) (k : Nat) : Bool :=
  0 < k && ofRatio false (k * Nat.pow 10 p.toNat) (Nat.pow 10 (-p).toNat) ==
    ofRatio false (m * Nat.pow 2 e.toNat) (Nat.pow 2 (-e).toNat)

/-- The multiple of `10 ^ p` next to `m * 2 ^ e`, by its factor, that is read back; the nearer one
if both are. -/
def onGrid? (m : Nat) (e : Int) (p : Int) : Option Nat :=
  let n := m * Nat.pow 2 e.toNat * Nat.pow 10 (-p).toNat
  let d := Nat.pow 2 (-e).toNat * Nat.pow 10 p.toNat
  let below := n / d
  let factors := if divideRound n d = below then [below,below + 1] else [below + 1,below]
  factors.find? (readsBack m e p)

/-- Try grids from `10 ^ p` downwards, at most `n` of them. -/
def shortestFrom (m : Nat) (e : Int) : Nat → Int → Nat × Int
  | 0, p => (0,p)
  | n + 1, p =>
    match onGrid? m e p with
    | some k => (k,p)
    | none => shortestFrom m e n (p - 1)

/-- A power of ten above `m * 2 ^ e`. -/
def gridAbove (m : Nat) (e : Int) : Int := (((Nat.log2 m : Int) + 1 + e) * 30103).fdiv 100000 + 1

/-- The shortest decimal of a number that is not zero: a factor and a power of ten. Eighteen digits
are more than enough. -/
def shortest (m : Nat) (e : Int) : Nat × Int := shortestFrom m e 20 (gridAbove m e)

/-- The digits of `k * 10 ^ p` without an exponent. -/
def positional (k : Nat) (p : Int) : String :=
  if 0 ≤ p then toString (k * Nat.pow 10 p.toNat)
  else
    let places := (-p).toNat
    let cs := (toString k).toList
    let padded := List.replicate (places + 1 - cs.length) '0' ++ cs
    let whole := padded.length - places
    String.ofList (padded.take whole ++ '.' :: padded.drop whole)

def text : Number → String
  | notANumber => "NaN"
  | infinite negative => if negative then "-inf" else "inf"
  | finite negative m e =>
    (if negative then "-" else "") ++
      if m = 0 then "0"
      else
        let (k,p) := shortest m e
        positional k p

example : (ofDecimal false 15 (-1)).text = "1.5" := by decide +kernel
example : (ofDecimal true 10 (-1)).text = "-1" := by decide +kernel

end Number
end Highlight.Configuration
