/-!
The characters of TOML documents: comments, blanks, line ends, and texts in their four kinds of
quotes. Readers take the characters that remain and give back those after what they read.
-/
namespace Highlight.Configuration.Toml

/-- Why a document is refused. -/
inductive TomlError where
  | unexpectedText
  | badEscape
  | textNotClosed
  | badScalar (token : String)
  | duplicateKey (name : String)
  | nestingTooDeep
  deriving DecidableEq, Repr

abbrev Reader := StateT (List Char) (Except TomlError)

def isBlank (c : Char) : Bool := c == ' ' || c == '\t'

/-- Characters that may stand in comments and quotes. -/
def isText (c : Char) : Bool := c == '\t' || (0x20 ≤ c.toNat && c.toNat != 0x7f)

def skipBlanks (cs : List Char) : List Char := cs.dropWhile isBlank

/-- The characters after a comment, if there is one. -/
def skipComment : List Char → List Char
  | '#' :: rest => rest.dropWhile isText
  | cs => cs

/-- The characters after a line feed, which a carriage return may precede. -/
def lineFeed? : List Char → Option (List Char)
  | '\n' :: rest | '\r' :: '\n' :: rest => some rest
  | _ => none

/-- The characters after the end of a line, at which blanks and a comment may stand. -/
def endLine? (cs : List Char) : Option (List Char) :=
  match skipComment (skipBlanks cs) with
  | [] => some []
  | cs => lineFeed? cs

/-- Skip blanks, comments and line ends, at most `n` lines. -/
def skipLines : Nat → List Char → List Char
  | 0, cs => cs
  | n + 1, cs =>
    let cs := skipBlanks cs
    match lineFeed? (skipComment cs) with
    | some rest => skipLines n rest
    | none => skipComment cs

/-- The character of a code point in hexadecimal. -/
def hexChar? (digits : List Char) : Option Char := do
  let n ← digits.foldlM (fun n c => do
    let d ← if c.isDigit then some (c.toNat - 48)
      else if 'a' ≤ c ∧ c ≤ 'f' then some (c.toNat - 87)
      else if 'A' ≤ c ∧ c ≤ 'F' then some (c.toNat - 55)
      else none
    return 16 * n + d) 0
  if h : n.isValidChar then return Char.ofNatAux n h else none

/-- The character that an escape stands for, after its backslash, and what follows. -/
def escaped? : List Char → Option (Char × List Char)
  | 'b' :: rest => some ('\x08',rest)
  | 't' :: rest => some ('\t',rest)
  | 'n' :: rest => some ('\n',rest)
  | 'f' :: rest => some ('\x0c',rest)
  | 'r' :: rest => some ('\r',rest)
  | '"' :: rest => some ('"',rest)
  | '\\' :: rest => some ('\\',rest)
  | 'u' :: rest => if rest.length < 4 then none else
    (hexChar? (rest.take 4)).map fun c => (c,rest.drop 4)
  | 'U' :: rest => if rest.length < 8 then none else
    (hexChar? (rest.take 8)).map fun c => (c,rest.drop 8)
  | _ => none

/-- A kind of quotes: the mark, whether backslashes escape, and whether lines may break. -/
structure Quotes where
  mark : Char
  escapes : Bool
  spansLines : Bool

/-- The characters after blanks and line ends. -/
def skipEmptyLines : List Char → List Char
  | '\r' :: '\n' :: rest => skipEmptyLines rest
  | c :: rest => if isBlank c || c == '\n' then skipEmptyLines rest else c :: rest
  | [] => []

/-- The characters after a backslash that ends its line, from the next one that shows. -/
def foldedLine? (cs : List Char) : Option (List Char) :=
  (lineFeed? (skipBlanks cs)).map skipEmptyLines

/-- The end of a text: one mark, or three of them with up to two more that belong to the text. -/
def closing? (q : Quotes) (cs : List Char) : Option (List Char × List Char) :=
  let marks := cs.takeWhile (· == q.mark)
  let n := marks.length
  if q.spansLines then
    if n < 3 then none
    else
      let inside := min (n - 3) 2
      some (List.replicate inside q.mark,cs.drop (inside + 3))
  else if n = 0 then none
  else some ([],cs.drop 1)

/-- The characters of a text up to its closing quotes, in at most `n` steps. -/
def quotedWithin (q : Quotes) : Nat → List Char → Except TomlError (List Char × List Char)
  | 0, _ | _ + 1, [] => .error .textNotClosed
  | n + 1, c :: rest =>
    match closing? q (c :: rest) with
    | some (marks,rest) => .ok (marks,rest)
    | none =>
      let also := fun (c : Char) (rest : List Char) =>
        (quotedWithin q n rest).map fun (text,rest) => (c :: text,rest)
      match q.escapes && c == '\\', q.spansLines, lineFeed? (c :: rest) with
      | true, spansLines, _ =>
        match (if spansLines then foldedLine? rest else none), escaped? rest with
        | some rest, _ => quotedWithin q n rest
        | none, some (c,rest) => also c rest
        | none, none => .error .badEscape
      | false, true, some rest => also '\n' rest
      | false, _, _ => if isText c then also c rest else .error .textNotClosed

/-- The first line end of a text that spans lines is not part of it. -/
def quoted (q : Quotes) (cs : List Char) : Except TomlError (String × List Char) := do
  let cs := if q.spansLines then (lineFeed? cs).getD cs else cs
  let (text,rest) ← quotedWithin q (cs.length + 1) cs
  return (String.ofList text,rest)

/-- A text in quotes of any kind, if there is one. -/
def text? : List Char → Option (Except TomlError (String × List Char))
  | '"' :: '"' :: '"' :: rest => some (quoted ⟨'"',true,true⟩ rest)
  | '"' :: rest => some (quoted ⟨'"',true,false⟩ rest)
  | '\'' :: '\'' :: '\'' :: rest => some (quoted ⟨'\'',false,true⟩ rest)
  | '\'' :: rest => some (quoted ⟨'\'',false,false⟩ rest)
  | _ => none

def isBare (c : Char) : Bool := c.isAlphanum || c == '_' || c == '-'

/-- A key: bare, or in quotes that do not span lines. -/
def simpleKey : Reader String := do
  let cs ← get
  match cs with
  | '"' :: '"' :: '"' :: _ | '\'' :: '\'' :: '\'' :: _ => throw .unexpectedText
  | _ =>
    match text? cs with
    | some read =>
      let (key,rest) ← read
      set rest
      return key
    | none =>
      let key := cs.takeWhile isBare
      if key.isEmpty then throw .unexpectedText
      set (cs.dropWhile isBare)
      return String.ofList key

/-- A path of keys with dots between them, at most `n + 1` of them. -/
def keyPath : Nat → Reader (List String)
  | 0 => throw .unexpectedText
  | n + 1 => do
    modify skipBlanks
    let key ← simpleKey
    modify skipBlanks
    match ← get with
    | '.' :: rest =>
      set rest
      return key :: (← keyPath n)
    | _ => return [key]

/-- Skip a character that must be there. -/
def expect (c : Char) : Reader Unit := do
  match ← get with
  | d :: rest => if c = d then set rest else throw .unexpectedText
  | [] => throw .unexpectedText

end Highlight.Configuration.Toml
