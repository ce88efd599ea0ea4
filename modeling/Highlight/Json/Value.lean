/-!
JSON values and their two layouts: on one line, and with every member on an indented line of its
own.
-/
namespace Highlight

inductive Json where
  | null
  | bool (b : Bool)
  | number (n : Nat)
  | string (s : String)
  | array (items : List Json)
  | object (fields : List (String × Json))
  deriving Repr

namespace Json

def hexDigit (n : Nat) : Char := Char.ofNat (if n < 10 then 48 + n else 87 + n)

/-- A character inside quotes. Quotes, backslashes and control characters are escaped. -/
def quoteChar (c : Char) : List Char :=
  match c with
  | '"' => ['\\','"']
  | '\\' => ['\\','\\']
  | '\n' => ['\\','n']
  | '\r' => ['\\','r']
  | '\t' => ['\\','t']
  | '\x08' => ['\\','b']
  | '\x0c' => ['\\','f']
  | c =>
    if c.toNat < 0x20 then ['\\','u','0','0',hexDigit (c.toNat / 16),hexDigit (c.toNat % 16)]
    else [c]

def quote (s : String) : String :=
  String.ofList ('"' :: s.toList.flatMap quoteChar ++ ['"'])

/-- Nesting of the lines that a value is spread over; `none` if it stays on one line. -/
abbrev Layout := Option Nat

def Layout.inner (l : Layout) : Layout := l.map (· + 1)

/-- What stands before a member or a closing bracket. -/
def Layout.lineBreak : Layout → String
  | none => ""
  | some level => "\n" ++ "".pushn ' ' (2 * level)

def Layout.colon : Layout → String
  | none => ":"
  | some _ => ": "

/-- The comma before every member but the first. -/
def comma (first : Bool) : String := if first then "" else ","

mutual

/-- The pieces of a value's text, and what follows them. -/
def printThen (l : Layout) : Json → List String → List String
  | null, rest => "null" :: rest
  | bool b, rest => (if b then "true" else "false") :: rest
  | number n, rest => toString n :: rest
  | string s, rest => quote s :: rest
  | array [], rest => "[]" :: rest
  | array (t :: ts), rest =>
    "[" :: itemsThen l.inner true (t :: ts) (l.lineBreak :: "]" :: rest)
  | object [], rest => "\x7b\x7d" :: rest
  | object (f :: fs), rest =>
    "\x7b" :: fieldsThen l.inner true (f :: fs) (l.lineBreak :: "\x7d" :: rest)

def itemsThen (l : Layout) (first : Bool) : List Json → List String → List String
  | [], rest => rest
  | t :: ts, rest => comma first :: l.lineBreak :: t.printThen l (itemsThen l false ts rest)

def fieldsThen (l : Layout) (first : Bool) : List (String × Json) → List String → List String
  | [], rest => rest
  | (name,value) :: fs, rest =>
    comma first :: l.lineBreak :: quote name :: l.colon ::
      value.printThen l (fieldsThen l false fs rest)

end

/-- The text of a value on one line. -/
def compact (j : Json) : String := String.join (j.printThen none [])

/-- The text of a value with one member a line, indented by two blanks a level. -/
def pretty (j : Json) : String := String.join (j.printThen (some 0) [])

/-- Put a field in front of the first one with a larger name. -/
def insertField (field : String × Json) : List (String × Json) → List (String × Json)
  | [] => [field]
  | f :: fs => if field.1 < f.1 then field :: f :: fs else f :: insertField field fs

mutual

/-- The value with the fields of every object in the order of their names. -/
def sortFields : Json → Json
  | array items => array (sortItems items)
  | object fields => object (sortMembers fields)
  | j => j

def sortItems : List Json → List Json
  | [] => []
  | t :: ts => t.sortFields :: sortItems ts

def sortMembers : List (String × Json) → List (String × Json)
  | [] => []
  | (name,value) :: fs => insertField (name,value.sortFields) (sortMembers fs)

end

example : (object [("b",array []),("a",string "x\n")]).sortFields.compact =
    "\x7b\"a\":\"x\\n\",\"b\":[]\x7d" := by rfl

end Json
end Highlight
