import Highlight.Regex.EscapeReader

/-!
Character sets in brackets. The extent of a set is found first, by counting brackets outside
escapes; then its items are combined: ranges, classes, nested sets and the operators for
intersection, difference and symmetric difference, which associate to the left.
-/
namespace Highlight.Regex

/-- An item of a set's text: a character that may have a meaning, or an escape, which has none
beyond itself. -/
inductive SetToken where
  | raw (c : Char)
  | fixed (e : Escaped)

/-- Read tokens up to the bracket that closes the outermost of `depth` open ones; the first
argument bounds the recursion. -/
def setTokens (fold : Bool) :
    Nat → Nat → List Char → Except PatternError (List SetToken × List Char)
  | 0, _, _ | _, _, [] => .error .unclosedSet
  | _ + 1, 0, _ => .error .unclosedSet
  | n + 1, depth + 1, c :: rest => do
    match c with
    | '\\' =>
      match rest with
      | [] => .error .trailingBackslash
      | e :: rest =>
        if e.isDigit then .error .unclosedSet
        else
          let (escaped,rest) ← readEscape fold e rest
          let (tokens,rest) ← setTokens fold n (depth + 1) rest
          return (.fixed escaped :: tokens,rest)
    | ']' =>
      if depth = 0 then return ([.raw ']'],rest)
      else
        let (tokens,rest) ← setTokens fold n depth rest
        return (.raw ']' :: tokens,rest)
    | '[' =>
      let (tokens,rest) ← setTokens fold n (depth + 2) rest
      return (.raw '[' :: tokens,rest)
    | c =>
      let (tokens,rest) ← setTokens fold n (depth + 1) rest
      return (.raw c :: tokens,rest)

/-- The operators between the items of a set. -/
inductive SetOp where
  | inter | diff | symmDiff

namespace SetOp

def apply : SetOp → CharSet → CharSet → CharSet
  | inter => .inter
  | diff => .diff
  | symmDiff => .symmDiff

/-- The operator that a doubled character writes. -/
def ofChar? : Char → Option SetOp
  | '&' => some inter
  | '-' => some diff
  | '~' => some symmDiff
  | _ => none

end SetOp

/-- What has been read of a set: the operand and operator before, and the union since then. -/
structure SetReading where
  left : Option (CharSet × SetOp) := none
  union : CharSet := .empty

namespace SetReading

def add (r : SetReading) (s : CharSet) : SetReading := { r with union := .union r.union s }

/-- The value of what has been read. Operands are closed under case before they are combined. -/
def value (fold : Bool) (r : SetReading) : CharSet :=
  match r.left with
  | none => r.union
  | some (s,op) => op.apply (.foldIf fold s) (.foldIf fold r.union)

def combine (fold : Bool) (r : SetReading) (op : SetOp) : SetReading :=
  { left := some (r.value fold,op) }

end SetReading

/-- A class with an ASCII name, after `[:` and up to `:]`. -/
def asciiClassIn? (fold : Bool) (tokens : List SetToken) : Option (CharSet × List SetToken) :=
  let raws := tokens.takeWhile (fun | .raw c => c != ':' | .fixed _ => false)
  match tokens.drop raws.length with
  | .raw ':' :: .raw ']' :: rest =>
    let name := raws.filterMap (fun | .raw c => some c | .fixed _ => none)
    let (negated,name) := match name with
      | '^' :: name => (true,name)
      | name => (false,name)
    (asciiClass? (String.ofList name)).map
      (fun s => (.complIf negated (.foldIf fold s),rest))
  | _ => none

/-- A single item: a character or a class. -/
def SetToken.item : SetToken → Escaped
  | raw c => .char c
  | fixed e => e

/-- An item and, if a hyphen and another item follow, the range between them. -/
def readRange (first : SetToken) (rest : List SetToken) :
    Except PatternError (CharSet × List SetToken) :=
  let alone := match first.item with
    | .char c => CharSet.single c
    | .class s => s
  match rest with
  | .raw '-' :: .raw ']' :: _ | .raw '-' :: .raw '-' :: _ => .ok (alone,rest)
  | .raw '-' :: second :: rest =>
    match first.item, second.item with
    | .char a, .char b =>
      if a ≤ b then .ok (.range a b,rest) else .error .rangeOutOfOrder
    | _, _ => .error .rangeOfClass
  | rest => .ok (alone,rest)

/-- Hyphens at the start of a set, and a bracket that would close it at once, are characters. -/
def leadingItems (tokens : List SetToken) : SetReading × List SetToken :=
  let hyphens := tokens.takeWhile (fun | .raw '-' => true | _ => false)
  let rest := tokens.drop hyphens.length
  if hyphens.isEmpty then
    match rest with
    | .raw ']' :: rest => (({} : SetReading).add (.single ']'),rest)
    | rest => ({},rest)
  else (({} : SetReading).add (.single '-'),rest)

/-- A set after its opening bracket, closed under case and complemented as it asks, given how its items
are read. -/
def readNested (fold : Bool)
    (readItems : SetReading → List SetToken → Except PatternError (CharSet × List SetToken))
    (tokens : List SetToken) : Except PatternError (CharSet × List SetToken) := do
  let (negated,tokens) := match tokens with
    | .raw '^' :: tokens => (true,tokens)
    | tokens => (false,tokens)
  let (reading,tokens) := leadingItems tokens
  let (s,tokens) ← readItems reading tokens
  return (.complIf negated (.foldIf fold s),tokens)

/-- The items of a set, up to its closing bracket; the first argument bounds the recursion. -/
def readSetItems (fold : Bool) :
    Nat → SetReading → List SetToken → Except PatternError (CharSet × List SetToken)
  | 0, _, _ | _, _, [] => .error .unclosedSet
  | n + 1, reading, token :: rest => do
    match token, rest with
    | .raw ']', rest => return (reading.value fold,rest)
    | .raw '[', .raw ':' :: rest' =>
      match asciiClassIn? fold rest' with
      | some (s,rest) => readSetItems fold n (reading.add s) rest
      | none =>
        let (s,rest) ← readNested fold (readSetItems fold n) rest
        readSetItems fold n (reading.add s) rest
    | .raw '[', rest =>
      let (s,rest) ← readNested fold (readSetItems fold n) rest
      readSetItems fold n (reading.add s) rest
    | .raw c, .raw d :: rest' =>
      match if c = d then SetOp.ofChar? c else none with
      | some op => readSetItems fold n (reading.combine fold op) rest'
      | none =>
        let (s,rest) ← readRange (.raw c) rest
        readSetItems fold n (reading.add s) rest
    | token, rest =>
      let (s,rest) ← readRange token rest
      readSetItems fold n (reading.add s) rest

/-- What may stand at the start of a set: the sign that complements it, and a bracket that would close
it at once, which is a character. -/
def setStart (cs : List Char) : List SetToken × List Char :=
  let (negated,cs) := takeMark '^' cs
  let (closing,cs) := takeMark ']' cs
  ((if negated then [.raw '^'] else []) ++ (if closing then [.raw ']'] else []),cs)

/-- A set after its opening bracket. -/
def readSet (fold : Bool) (cs : List Char) : Except PatternError (CharSet × List Char) := do
  let (start,cs) := setStart cs
  let (tokens,rest) ← setTokens fold (cs.length + 1) 1 cs
  let tokens := start ++ tokens
  let (s,left) ← readNested fold (readSetItems fold (2 * tokens.length + 2)) tokens
  if left.isEmpty then return (s,rest) else .error .unclosedSet

end Highlight.Regex
