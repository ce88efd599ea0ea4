import Highlight.Text.Category

/-!
The classes of characters that patterns and word splitting refer to. The first 128 characters are
decided directly, the others by their general category.
-/
namespace Highlight.Text

/-- Letters by property that are neither letters nor marks by category: the circled and squared
Latin letters. -/
def isEnclosedLetter (c : Char) : Bool :=
  let n := c.toNat
  (0x24B6 ≤ n && n ≤ 0x24E9) || (0x1F130 ≤ n && n ≤ 0x1F149) ||
    (0x1F150 ≤ n && n ≤ 0x1F169) || (0x1F170 ≤ n && n ≤ 0x1F189)

/-- Word characters: letters, marks, decimal digits, connectors and the two joining controls. -/
def isWordWide (c : Char) : Bool :=
  let k := Category.of c
  k.isLetter || k.isMark || k == .Nl || k == .Nd || k == .Pc ||
    c.toNat == 0x200C || c.toNat == 0x200D || isEnclosedLetter c

def isWord (c : Char) : Bool :=
  if c.toNat < 128 then c.isAlphanum || c == '_' else isWordWide c

/-- Decimal digits of any script. -/
def isDigit (c : Char) : Bool :=
  if c.toNat < 128 then c.isDigit else Category.of c == .Nd

/-- White space. -/
def isSpace (c : Char) : Bool :=
  let n := c.toNat
  (9 ≤ n && n ≤ 13) || n == 0x20 || n == 0x85 || n == 0xA0 || n == 0x1680 ||
    (0x2000 ≤ n && n ≤ 0x200A) || n == 0x2028 || n == 0x2029 || n == 0x202F || n == 0x205F ||
    n == 0x3000

/-- The characters of a name: letters and digits of any script, and the underscore. -/
def isNameChar (c : Char) : Bool :=
  if c.toNat < 128 then c.isAlphanum || c == '_'
  else
    let k := Category.of c
    k.isLetter || k == .Nd || k == .Nl || k == .No || isEnclosedLetter c

/-- The maximal runs of characters that are not white space. -/
def words (text : String) : List String :=
  go [] text.toList
where
  flush (word : List Char) (rest : List String) : List String :=
    if word.isEmpty then rest else String.ofList word.reverse :: rest
  /-- Words of the text that remains, `word` being the reversed start of the first. -/
  go (word : List Char) : List Char → List String
    | [] => flush word []
    | c :: rest => if isSpace c then flush word (go [] rest) else go (c :: word) rest

example : words " ab  c\n" = ["ab","c"] := by decide

end Highlight.Text
