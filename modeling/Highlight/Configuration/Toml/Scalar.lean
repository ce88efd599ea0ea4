import Highlight.Configuration.Value

/-! The values of TOML documents that are written without quotes and brackets. -/
namespace Highlight.Configuration.Toml

/-- Digits without the single underscores between them. -/
def digits? (isDigit : Char → Bool) : List Char → Option (List Char)
  | [] => none
  | [c] => if isDigit c then some [c] else none
  | c :: '_' :: rest => if isDigit c then (digits? isDigit rest).map (c :: ·) else none
  | c :: rest => if isDigit c then (digits? isDigit rest).map (c :: ·) else none

def digitValue (c : Char) : Nat :=
  if c.isDigit then c.toNat - 48 else if 'a' ≤ c then c.toNat - 87 else c.toNat - 55

def digitsIn (base : Nat) (digits : List Char) : Nat :=
  digits.foldl (fun n c => base * n + digitValue c) 0

/-- The sign in front of a number, and what follows it. -/
def splitSign : List Char → Bool × List Char
  | '-' :: rest => (true,rest)
  | '+' :: rest => (false,rest)
  | cs => (false,cs)

/-- Decimal digits of a whole number, which does not start with a zero unless it is zero. -/
def wholeDigits? (cs : List Char) : Option (List Char) := do
  let ds ← digits? Char.isDigit cs
  if ds.head? = some '0' && 1 < ds.length then none else some ds

def inRange? (i : Int) : Option Value :=
  if Int64.minValue.toInt ≤ i ∧ i ≤ Int64.maxValue.toInt then some (.integer i) else none

def isHexDigit (c : Char) : Bool :=
  c.isDigit || ('a' ≤ c && c ≤ 'f') || ('A' ≤ c && c ≤ 'F')

def integer? : List Char → Option Value
  | '0' :: 'x' :: rest => do inRange? (digitsIn 16 (← digits? isHexDigit rest))
  | '0' :: 'o' :: rest => do
    inRange? (digitsIn 8 (← digits? (fun c => '0' ≤ c && c ≤ '7') rest))
  | '0' :: 'b' :: rest => do inRange? (digitsIn 2 (← digits? (fun c => c == '0' || c == '1') rest))
  | cs => do
    let (negative,cs) := splitSign cs
    let n := digitsIn 10 (← wholeDigits? cs)
    inRange? (if negative then -n else n)

/-- The power of ten after its letter. -/
def exponent? (cs : List Char) : Option Int := do
  let (negative,cs) := splitSign cs
  let n := digitsIn 10 (← digits? Char.isDigit cs)
  return if negative then -n else n

def isExponentMark (c : Char) : Bool := c == 'e' || c == 'E'

/-- A number with a point or a power of ten. One that is too large is refused, unless negative. -/
def number? (cs : List Char) : Option Value := do
  let (negative,cs) := splitSign cs
  match cs with
  | ['i','n','f'] => return .number (.infinite negative)
  | ['n','a','n'] => return .number .notANumber
  | _ =>
    let mantissa := cs.takeWhile (!isExponentMark ·)
    let power := cs.dropWhile (!isExponentMark ·)
    let whole ← wholeDigits? (mantissa.takeWhile (· != '.'))
    let places ← match mantissa.dropWhile (· != '.') with
      | [] => some []
      | _ :: rest => digits? Char.isDigit rest
    if places.isEmpty && power.isEmpty then none
    let exponent ← match power with
      | [] => some 0
      | _ :: rest => exponent? rest
    let x := Number.ofDecimal negative (digitsIn 10 (whole ++ places)) (exponent - places.length)
    if x = .infinite false then none else some (.number x)

/-! ### Dates and times -/

/-- A number of exactly so many digits within bounds, and what follows it. -/
def fixedDigits? (width least most : Nat) (cs : List Char) : Option (Nat × List Char) :=
  let ds := cs.take width
  let n := digitsIn 10 ds
  if ds.length = width ∧ ds.all Char.isDigit ∧ least ≤ n ∧ n ≤ most then some (n,cs.drop width)
  else none

def skip? (c : Char) : List Char → Option (List Char)
  | d :: rest => if c = d then some rest else none
  | [] => none

def daysIn (year month : Nat) : Nat :=
  if month = 2 then
    if year % 4 = 0 ∧ (year % 100 ≠ 0 ∨ year % 400 = 0) then 29 else 28
  else if [4,6,9,11].contains month then 30
  else 31

def padded (width n : Nat) : String :=
  let cs := (toString n).toList
  String.ofList (List.replicate (width - cs.length) '0' ++ cs)

/-- A date in its standard text, and what follows it. -/
def date? (cs : List Char) : Option (String × List Char) := do
  let (year,cs) ← fixedDigits? 4 0 9999 cs
  let (month,cs) ← fixedDigits? 2 1 12 (← skip? '-' cs)
  let (day,cs) ← fixedDigits? 2 1 (daysIn year month) (← skip? '-' cs)
  return (padded 4 year ++ "-" ++ padded 2 month ++ "-" ++ padded 2 day,cs)

/-- The fraction of a second to nine places without final zeros, and what follows it. -/
def fraction? : List Char → Option (String × List Char)
  | '.' :: rest =>
    let ds := rest.takeWhile Char.isDigit
    if ds.isEmpty then none
    else
      let kept := ((ds.take 9).reverse.dropWhile (· == '0')).reverse
      some (if kept.isEmpty then "" else "." ++ String.ofList kept,rest.dropWhile Char.isDigit)
  | cs => some ("",cs)

/-- A time of day in its standard text, and what follows it. -/
def time? (cs : List Char) : Option (String × List Char) := do
  let (hour,cs) ← fixedDigits? 2 0 23 cs
  let (minute,cs) ← fixedDigits? 2 0 59 (← skip? ':' cs)
  let (second,cs) ← fixedDigits? 2 0 60 (← skip? ':' cs)
  let (fraction,cs) ← fraction? cs
  return (padded 2 hour ++ ":" ++ padded 2 minute ++ ":" ++ padded 2 second ++ fraction,cs)

/-- The distance from universal time, if it is written. -/
def offset? : List Char → Option String
  | [] => some ""
  | ['Z'] | ['z'] => some "Z"
  | sign :: cs => do
    if sign != '+' && sign != '-' then none
    let (hour,cs) ← fixedDigits? 2 0 23 cs
    let (minute,cs) ← fixedDigits? 2 0 59 (← skip? ':' cs)
    if !cs.isEmpty then none
    let mark := if sign = '-' && 0 < hour + minute then "-" else "+"
    return mark ++ padded 2 hour ++ ":" ++ padded 2 minute

def moment? (cs : List Char) : Option Value := do
  match date? cs with
  | some (date,[]) => return .text date
  | some (date,delimiter :: cs) =>
    if !"Tt ".toList.contains delimiter then none
    let (time,cs) ← time? cs
    return .text (date ++ "T" ++ time ++ (← offset? cs))
  | none =>
    let (time,cs) ← time? cs
    if cs.isEmpty then return .text time else none

/-- The value of a token. -/
def scalar? (token : List Char) : Option Value :=
  if token = "true".toList then some (.boolean true)
  else if token = "false".toList then some (.boolean false)
  else integer? token <|> number? token <|> moment? token

def isTokenChar (c : Char) : Bool := c.isAlphanum || "+-_.:".toList.contains c

/-- The token that a text starts with. A date and a time may stand apart by one blank. -/
def splitToken (cs : List Char) : List Char × List Char :=
  let first := cs.takeWhile isTokenChar
  match date? first, cs.dropWhile isTokenChar with
  | some (_,[]), ' ' :: d :: rest =>
    if d.isDigit then
      (first ++ ' ' :: (d :: rest).takeWhile isTokenChar,(d :: rest).dropWhile isTokenChar)
    else (first,' ' :: d :: rest)
  | _, rest => (first,rest)

example : (scalar? "1_000".toList).bind Value.asText? = some "1000" := by decide +kernel
example : (scalar? "1979-05-27t07:32:00.500-00:00".toList).bind Value.asText? =
    some "1979-05-27T07:32:00.5+00:00" := by decide +kernel

end Highlight.Configuration.Toml
