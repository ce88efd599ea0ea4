import Highlight.Configuration.Value

/-!
Places in a configuration: a key, and below it keys of inner tables and places of inner lists. Keys
are compared in lower case. Setting a place makes the tables and lists around it as needed, and a
table that is set is laid over what is there.
-/
namespace Highlight.Configuration

inductive KeyStep where
  | child (key : String)
  /-- A place of a list; negative ones count from its end. -/
  | index (i : Int)
  deriving DecidableEq, Repr

structure KeyPath where
  first : String
  steps : List KeyStep := []
  deriving DecidableEq, Repr

namespace KeyPath

def isKeyChar (c : Char) : Bool := c.isAlphanum || c == '_' || c == '-' || c == ' '

/-- A key, and the characters after it. -/
def key? (cs : List Char) : Option (String × List Char) :=
  let key := cs.takeWhile isKeyChar
  if key.isEmpty then none else some (String.ofList key,cs.dropWhile isKeyChar)

/-- A whole number in decimal digits, perhaps negative. -/
def wholeNumber? : List Char → Option Int
  | '-' :: digits => if isNumber digits then some (-(valueOf digits : Int)) else none
  | digits => if isNumber digits then some (valueOf digits) else none
where
  isNumber (digits : List Char) : Bool := !digits.isEmpty && digits.all Char.isDigit
  valueOf (digits : List Char) : Nat :=
    digits.foldl (fun n c => 10 * n + (c.toNat - '0'.toNat)) 0

def isBlank (c : Char) : Bool := c == ' ' || c == '\t'

def isNumberChar (c : Char) : Bool := c == '-' || c.isDigit

/-- A place of a list up to its closing bracket, and the characters after it. -/
def index? (cs : List Char) : Option (Int × List Char) :=
  let cs := cs.dropWhile isBlank
  match (cs.dropWhile isNumberChar).dropWhile isBlank with
  | ']' :: rest => (wholeNumber? (cs.takeWhile isNumberChar)).map fun i => (i,rest)
  | _ => none

/-- The steps that a text spells out, at most `n` of them. -/
def steps? : Nat → List Char → Option (List KeyStep)
  | _, [] => some []
  | n + 1, '.' :: rest => do
    let (key,rest) ← key? rest
    return .child key :: (← steps? n rest)
  | n + 1, '[' :: rest => do
    let (i,rest) ← index? rest
    return .index i :: (← steps? n rest)
  | _, _ => none

def ofString? (text : String) : Option KeyPath := do
  let (first,rest) ← key? text.toList
  return { first, steps := ← steps? rest.length rest }

end KeyPath

namespace Value

/-- Set a field of a table, or add it at the end. -/
def setField (key : String) (v : Value) : List (String × Value) → List (String × Value)
  | [] => [(key,v)]
  | (k,old) :: rest => if k = key then (k,v) :: rest else (k,old) :: setField key v rest

def field (v : Value) (key : String) : Value := (v.fields.lookup key).getD .absent

/-- The field with a key, in lower case, changed. -/
def change (v : Value) (key : String) (f : Value → Value) : Value :=
  let key := Text.lower key
  .table (setField key (f (v.field key)) v.fields)

mutual

/-- Lay a value over another one. Tables are merged, anything else is replaced. -/
def laidOver : Value → Value → Value
  | .table incoming, below => mergeInto incoming (match below with
    | .absent => .table []
    | below => below)
  | v, _ => v

/-- Set the fields of a table, one after the other. -/
def mergeInto : List (String × Value) → Value → Value
  | [], below => below
  | (key,v) :: rest, below => mergeInto rest (below.change key (v.laidOver ·))

end

/-- A place of a list as it counts from the front. -/
def placeOf (i : Int) (length : Nat) : Nat := if i < 0 then (length + i).toNat else i.toNat

/-- The items of a list with one of them changed. Gaps before it are filled. -/
def changeItem (items : List Value) (i : Nat) (f : Value → Value) : List Value :=
  let items := items ++ List.replicate (i + 1 - items.length) .absent
  items.modify i f

/-- Set the place below a value that some steps lead to. -/
def setAt (new : Value) : List KeyStep → Value → Value
  | [], below => new.laidOver below
  | .child key :: steps, below => below.change key (setAt new steps)
  | [.index i], below =>
    .list (changeItem below.items (placeOf i below.items.length) fun _ => new)
  | .index i :: steps, below =>
    .list (changeItem below.items (placeOf i below.items.length) (setAt new steps))

/-- Set a place of a configuration. -/
def set (root : Value) (path : KeyPath) (new : Value) : Value :=
  setAt new (.child path.first :: path.steps) root

end Value
end Highlight.Configuration
