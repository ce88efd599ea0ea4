/-!
Text under scan. Positions count characters; what leaves the library as an offset counts the bytes
of the encoded text before the position.
-/
namespace Highlight

/-- A text as an array of characters, addressed by position. -/
abbrev Source := Array Char

namespace Source

def ofString (text : String) : Source := text.toList.toArray

def toString (t : Source) : String := String.ofList t.toList

/-- The text between two positions. -/
def slice (t : Source) (start stop : Nat) : String :=
  String.ofList (t.extract start stop).toList

/-- Whether `part` stands at a position. -/
def continuesWith (t : Source) (part : String) (position : Nat) : Bool :=
  t.slice position (position + part.length) == part

/-- Bytes of the encoded text before a position. -/
def byteOffset (t : Source) (position : Nat) : Nat :=
  (t.extract 0 position).foldl (fun n c => n + c.utf8Size) 0

/-- The character at a position and the one before it. -/
def charAt? (t : Source) (position : Nat) : Option Char := t[position]?

def charBefore? (t : Source) (position : Nat) : Option Char :=
  if position = 0 then none else t[position - 1]?

/-- First position at or after `position` whose offset is at least `offset`, given the offset
`here` of `position`. -/
def seekFrom (cs : List Char) (position here offset : Nat) : Nat :=
  match cs with
  | [] => position
  | c :: rest =>
    if offset ≤ here then position else seekFrom rest (position + 1) (here + c.utf8Size) offset

/-- The position whose offset is `offset`, rounded up to a character. -/
def positionAt (t : Source) (offset : Nat) : Nat := seekFrom t.toList 0 0 offset

/-- The last position whose offset is at most `offset`. -/
def positionBelow (t : Source) (offset : Nat) : Nat :=
  let p := t.positionAt offset
  if t.byteOffset p ≤ offset then p else p - 1

/-- The text within `radius` bytes of a position, widened to whole characters. -/
def window (t : Source) (position radius : Nat) : String :=
  let here := t.byteOffset position
  t.slice (t.positionBelow (here - radius)) (t.positionAt (here + radius))

@[simp] theorem toString_ofString (text : String) : (ofString text).toString = text := by
  simp [ofString,toString]

example : (ofString "aé🎉b").byteOffset 3 = 7 := by decide
example : (ofString "aé🎉b").window 1 1 = "aé" := by decide

end Source
end Highlight
