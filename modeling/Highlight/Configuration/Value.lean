import Highlight.Configuration.Number
import Highlight.Text.LowerCase

/-! Values of a configuration, and how each is read as the kind of value that a setting asks for. -/
namespace Highlight.Configuration

inductive Value where
  /-- Fills the gaps of a list. -/
  | absent
  | boolean (b : Bool)
  | integer (i : Int)
  | number (x : Number)
  | text (s : String)
  | list (items : List Value)
  | table (fields : List (String × Value))
  deriving Repr

namespace Value

/-- Numbers count by whether they are zero, texts by a few words. -/
def asBoolean? : Value → Option Bool
  | boolean b => some b
  | integer i => some (i != 0)
  | number x => some !x.isZero
  | text s =>
    let word := Text.lower s
    if ["1","true","on","yes"].contains word then some true
    else if ["0","false","off","no"].contains word then some false
    else none
  | _ => none

/-- Booleans and numbers are read as they are written. -/
def asText? : Value → Option String
  | boolean b => some (if b then "true" else "false")
  | integer i => some (toString i)
  | number x => some x.text
  | text s => some s
  | _ => none

/-- Only a list is read as a list of texts. -/
def asTexts? : Value → Option (List String)
  | list items => items.mapM asText?
  | _ => none

def fields : Value → List (String × Value)
  | table fields => fields
  | _ => []

def items : Value → List Value
  | list items => items
  | _ => []

end Value
end Highlight.Configuration
