import Highlight.Configuration.Toml.Scalar
import Highlight.Configuration.Toml.Table

/-! TOML documents: lines that set keys or open tables. -/
namespace Highlight.Configuration.Toml

/-- How deep lists and tables may stand in each other. -/
def maxDepth : Nat := 80

/-- The last key of a path, and those before it. -/
def splitPath (path : List String) : List String × String := (path.dropLast,path.getLastD "")

/-- Read a key, or several with dots between them, and the sign that a value follows. -/
def keyAndSign : Reader (List String) := do
  let path ← keyPath ((← get).length + 1)
  expect '='
  modify skipBlanks
  return path

def skipAllLines : Reader Unit := modify fun cs => skipLines (cs.length + 1) cs

/-- A value without brackets. -/
def plainValue : Reader Value := do
  let cs ← get
  match text? cs with
  | some read =>
    let (s,rest) ← read
    set rest
    return .text s
  | none =>
    let (token,rest) := splitToken cs
    match scalar? token with
    | some v =>
      set rest
      return v
    | none => throw (.badScalar (String.ofList token))

mutual

/-- Read a value in at most `n` nested steps, `room` being the depth that is left. -/
def value : Nat → Nat → Reader Value
  | 0, _ => throw .nestingTooDeep
  | n + 1, room => do
    match ← get with
    | '[' :: rest =>
      if room = 0 then throw .nestingTooDeep
      set rest
      return .list (← listItems n (room - 1))
    | '\x7b' :: rest =>
      if room = 0 then throw .nestingTooDeep
      match skipBlanks rest with
      | '\x7d' :: rest =>
        set rest
        return .table []
      | rest =>
        set rest
        return (Item.table .dotted (← inlineEntries n (room - 1) [])).toValue
    | _ => plainValue

/-- The items that are left in a list. -/
def listItems : Nat → Nat → Reader (List Value)
  | 0, _ => throw .nestingTooDeep
  | n + 1, room => do
    skipAllLines
    match ← get with
    | ']' :: rest =>
      set rest
      return []
    | _ =>
      let v ← value n room
      skipAllLines
      match ← get with
      | ',' :: rest =>
        set rest
        return v :: (← listItems n room)
      | _ =>
        expect ']'
        return [v]

/-- The entries that are left in a table on one line. -/
def inlineEntries : Nat → Nat → Entries → Reader Entries
  | 0, _, _ => throw .nestingTooDeep
  | n + 1, room, entries => do
    let (keys,key) := splitPath (← keyAndSign)
    let v ← value n room
    let entries ← Entries.insert .implied entries key v keys false
    modify skipBlanks
    match ← get with
    | ',' :: rest =>
      set rest
      inlineEntries n room entries
    | _ =>
      expect '\x7d'
      return entries

end

/-- What has been read of a document: its tables, and the keys of the table that is open. -/
structure Progress where
  entries : Entries := []
  header : Option (List String) := none

/-- Set a key in the open table. -/
def Progress.assign (p : Progress) (path : List String) (v : Value) :
    Except TomlError Progress := do
  let (keys,key) := splitPath path
  match p.header with
  | none => return { p with entries := ← Entries.insert .header p.entries key v keys false }
  | some header =>
    let (around,last) := splitPath header
    return { p with entries := ← p.entries.atHeader last (addTo keys key v) around }

/-- Open a table. -/
def Progress.openAt (p : Progress) (path : List String)
    (change : String → Option Item → Except TomlError Item) : Except TomlError Progress := do
  let (around,last) := splitPath path
  return { entries := ← p.entries.atHeader last (change last) around, header := some path }

/-- Read the line that the text starts with. -/
def line (p : Progress) : Reader Progress := do
  match ← get with
  | '[' :: '[' :: rest =>
    set rest
    let path ← keyPath (rest.length + 1)
    expect ']'
    expect ']'
    p.openAt path openElement
  | '[' :: rest =>
    set rest
    let path ← keyPath (rest.length + 1)
    expect ']'
    p.openAt path openTable
  | cs =>
    let path ← keyAndSign
    p.assign path (← value (2 * cs.length + 2) maxDepth)

/-- Read lines to the end of the text, at most `n` of them. -/
def linesFrom : Nat → Progress → Reader Progress
  | 0, _ => throw .unexpectedText
  | n + 1, p => do
    skipAllLines
    if (← get).isEmpty then return p
    let p ← line p
    match endLine? (← get) with
    | none => throw .unexpectedText
    | some rest =>
      set rest
      linesFrom n p

/-- The fields of a document. A byte order mark at its start is skipped. -/
def read (document : String) : Except TomlError (List (String × Value)) := do
  let cs := document.toList
  let cs := if cs.head? = some '\ufeff' then cs.drop 1 else cs
  let (p,_) ← (linesFrom (cs.length + 1) {}).run cs
  return entriesToFields p.entries

end Highlight.Configuration.Toml
