import Highlight.Configuration.Toml.Text
import Highlight.Configuration.Value

/-!
Tables of a TOML document under construction. How a table came about decides what may still be
added to it: no key is set twice, no table is opened twice, and a table that stands in a header is
not extended by keys with dots.
-/
namespace Highlight.Configuration.Toml

/-- How a table came about. -/
inductive Origin where
  /-- By its own header. -/
  | header
  /-- By the header of a table inside it. -/
  | implied
  /-- By a key with dots. -/
  | dotted
  deriving DecidableEq, Repr

inductive Item where
  | value (v : Value)
  | table (origin : Origin) (entries : List (String × Item))
  /-- A list of tables, each with a header; the last one comes first. -/
  | tables (bodies : List (List (String × Item)))
  deriving Repr

abbrev Entries := List (String × Item)

namespace Entries

def set (key : String) (item : Item) : Entries → Entries
  | [] => [(key,item)]
  | (k,old) :: rest => if k = key then (k,item) :: rest else (k,old) :: set key item rest

/-- Insert a value at a path of keys with dots into a table of the given origin. -/
def insert (origin : Origin) (entries : Entries) (key : String) (v : Value) :
    List String → Bool → Except TomlError Entries
  | [], below =>
    if below != (origin == .dotted) then .error (.duplicateKey key)
    else if (entries.lookup key).isSome then .error (.duplicateKey key)
    else .ok (entries.set key (.value v))
  | k :: path, _ =>
    match entries.lookup k with
    | none => do return entries.set k (.table .dotted (← insert .dotted [] key v path true))
    | some (.table o inner) =>
      if o = .header then .error (.duplicateKey k)
      else do return entries.set k (.table o (← insert o inner key v path true))
    | some (.tables (last :: others)) => do
      return entries.set k (.tables ((← insert .header last key v path true) :: others))
    | some _ => .error (.duplicateKey k)

/-- Change the table that a header names, by the keys around it and its own. -/
def atHeader (entries : Entries) (key : String) (change : Option Item → Except TomlError Item) :
    List String → Except TomlError Entries
  | [] => do return entries.set key (← change (entries.lookup key))
  | k :: path =>
    match entries.lookup k with
    | none => do return entries.set k (.table .implied (← atHeader [] key change path))
    | some (.table o inner) => do
      return entries.set k (.table o (← atHeader inner key change path))
    | some (.tables (last :: others)) => do
      return entries.set k (.tables ((← atHeader last key change path) :: others))
    | some _ => .error (.duplicateKey k)

end Entries

/-- Open a table. It must be new, or known only by the headers inside it. -/
def openTable (key : String) : Option Item → Except TomlError Item
  | none => .ok (.table .header [])
  | some (.table .implied entries) => .ok (.table .header entries)
  | some _ => .error (.duplicateKey key)

/-- Begin another table of a list of tables. -/
def openElement (key : String) : Option Item → Except TomlError Item
  | none => .ok (.tables [[]])
  | some (.tables bodies) => .ok (.tables ([] :: bodies))
  | some _ => .error (.duplicateKey key)

/-- Add a value to the table that was opened last. -/
def addTo (keys : List String) (key : String) (v : Value) (item : Option Item) :
    Except TomlError Item :=
  match item with
  | some (.table o entries) => return .table o (← Entries.insert o entries key v keys false)
  | some (.tables (last :: others)) =>
    return .tables ((← Entries.insert .header last key v keys false) :: others)
  | _ => .error .unexpectedText

mutual

def Item.toValue : Item → Value
  | .value v => v
  | .table _ entries => .table (entriesToFields entries)
  | .tables bodies => .list (bodiesToItems bodies).reverse

def entriesToFields : List (String × Item) → List (String × Value)
  | [] => []
  | (key,item) :: rest => (key,item.toValue) :: entriesToFields rest

def bodiesToItems : List (List (String × Item)) → List Value
  | [] => []
  | body :: rest => .table (entriesToFields body) :: bodiesToItems rest

end

end Highlight.Configuration.Toml
