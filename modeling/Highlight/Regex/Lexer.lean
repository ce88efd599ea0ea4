import Highlight.Regex.EscapeReader
import Highlight.Regex.Pattern
import Highlight.Regex.SetReader

/-!
The tokens of a pattern's text. Flags decide what a character stands for, and whether blanks and line
comments count; apart from that, a token is read from the text alone.
-/
namespace Highlight.Regex

/-- Settings that inline flags change. -/
structure Flags where
  fold : Bool := false
  multiline : Bool := false
  dotAll : Bool := false
  swapGreed : Bool := false
  extended : Bool := false
  deriving DecidableEq, Repr

/-- A piece of a pattern and whether it may be repeated: empty pieces, assertions and look-arounds
may not. -/
structure Piece where
  pattern : Pattern
  repeatable : Bool := true

def Piece.nothing : Piece := ⟨.empty,false⟩

def Piece.ofSet (s : CharSet) : Piece := ⟨.set s,true⟩

/-- A character, closed under case if the flags say so. -/
def Piece.ofChar (f : Flags) (c : Char) : Piece := .ofSet (.foldIf f.fold (.single c))

def Piece.ofAssertion (a : Assertion) : Piece := ⟨.assert a,false⟩

/-- A token of a pattern's text. -/
inductive Lexeme where
  | piece (p : Piece)
  /-- Flags that hold from here on. -/
  | flags (f : Flags)
  | bar
  | close
  /-- Rounds of the piece before. -/
  | rounds (least : Nat) (most : Option Nat) (greedy possessive : Bool)
  | atomic
  | look (behind negated : Bool)
  | capture (name : Option String)
  /-- A group without a capture, in which other flags hold. -/
  | plain (inside : Flags)
  | numberRef (n : Nat)
  | nameRef (name : String)

/-- A token and the text after it. -/
abbrev LexResult := Except PatternError (Lexeme × List Char)

/-- The rest of a comment group after its opening; a backslash hides the character after it. -/
def skipComment : List Char → Except PatternError (List Char)
  | [] => .error .unclosedComment
  | ')' :: rest => .ok rest
  | '\\' :: _ :: rest => skipComment rest
  | _ :: rest => skipComment rest

/-- Skip comments, and in extended mode blanks and line comments; the first argument bounds the
recursion. -/
def skipBlanksWithin (extended : Bool) : Nat → List Char → Except PatternError (List Char)
  | 0, cs => .ok cs
  | n + 1, cs =>
    match cs with
    | '(' :: '?' :: '#' :: rest => do skipBlanksWithin extended n (← skipComment rest)
    | '#' :: rest =>
      if extended then skipBlanksWithin extended n ((rest.dropWhile (· != '\n')).drop 1)
      else .ok cs
    | c :: rest =>
      if extended && (c = ' ' || c = '\r' || c = '\n' || c = '\t') then
        skipBlanksWithin extended n rest
      else .ok cs
    | [] => .ok []

def skipBlanks (extended : Bool) (cs : List Char) : Except PatternError (List Char) :=
  skipBlanksWithin extended cs.length cs

/-- The lower bound of a repetition, zero if a comma stands in its place. -/
def readLeast? (cs : List Char) : Option (Nat × List Char) :=
  if cs.head? = some ',' then some (0,cs) else readDecimal? cs

/-- The upper bound of a repetition: the lower one again without a comma, none after a mere comma. -/
def readMost? (extended : Bool) (least : Nat) (cs : List Char) :
    Option (Option Nat × List Char) := do
  let (comma,cs) := takeMark ',' cs
  if comma then
    let cs ← (skipBlanks extended cs).toOption
    match readDecimal? cs with
    | some (most,cs) => some (some most,cs)
    | none => some (none,cs)
  else some (some least,cs)

/-- The bounds of a repetition after its opening brace, up to its closing one. -/
def readBounds? (extended : Bool) (cs : List Char) : Option (Nat × Option Nat × List Char) := do
  let cs ← (skipBlanks extended cs).toOption
  let (least,cs) ← readLeast? cs
  let cs ← (skipBlanks extended cs).toOption
  let (most,cs) ← readMost? extended least cs
  let cs ← (skipBlanks extended cs).toOption
  let (closed,cs) := takeMark '\x7d' cs
  if closed then some (least,most,cs) else none

/-- A repetition, by what follows its bounds: it may be lazy, or possessive. -/
def lexRounds (f : Flags) (least : Nat) (most : Option Nat) (rest : List Char) : LexResult := do
  let rest ← skipBlanks f.extended rest
  let (lazy,rest) := takeMark '?' rest
  let (possessive,rest) := takeMark '+' rest
  return (.rounds least most (lazy == f.swapGreed) possessive,rest)

/-- A reference by name, up to the character that closes the name. -/
def lexNameRef (close : Char) (cs : List Char) : LexResult :=
  match readName? close cs with
  | some (name,rest) => .ok (.nameRef name,rest)
  | none => .error .invalidGroupName

def lexNamedGroup (cs : List Char) : LexResult :=
  match readName? '>' cs with
  | some (name,rest) => .ok (.capture (some name),rest)
  | none => .error .invalidGroupName

/-- Change the flag that a letter names. -/
def setFlag? (f : Flags) (on : Bool) : Char → Option Flags
  | 'i' => some { f with fold := on }
  | 'm' => some { f with multiline := on }
  | 's' => some { f with dotAll := on }
  | 'U' => some { f with swapGreed := on }
  | 'x' => some { f with extended := on }
  | 'u' => if on then some f else none
  | _ => none

/-- Flags after `(?`. They hold from here on, or for the group if a colon follows; `off` tells
whether a hyphen was read and `count` how many characters were. The first argument bounds the
recursion. -/
def lexFlags : Nat → Flags → Bool → Nat → List Char → LexResult
  | 0, _, _, _, _ => .error .unclosedGroup
  | n + 1, f, off, count, cs => do
    match ← skipBlanks f.extended cs with
    | [] => .error .unclosedGroup
    | c :: rest =>
      if c = '-' then
        if off then .error .unknownFlag else lexFlags n f true (count + 1) rest
      else if c = ')' then
        if count = 0 || (off && count = 1) then .error .unknownFlag else return (.flags f,rest)
      else if c = ':' then
        if off && count = 1 then .error .unknownFlag else return (.plain f,rest)
      else
        match setFlag? f (!off) c with
        | some f => lexFlags n f off (count + 1) rest
        | none => .error .unknownFlag

/-- What a parenthesis with a question mark starts, by what follows the question mark. -/
def lexSpecial (f : Flags) : List Char → LexResult
  | '=' :: rest => .ok (.look false false,rest)
  | '!' :: rest => .ok (.look false true,rest)
  | '<' :: '=' :: rest => .ok (.look true false,rest)
  | '<' :: '!' :: rest => .ok (.look true true,rest)
  | '<' :: rest => lexNamedGroup rest
  | 'P' :: '<' :: rest => lexNamedGroup rest
  | 'P' :: '=' :: rest => lexNameRef ')' rest
  | '>' :: rest => .ok (.atomic,rest)
  | '(' :: _ => .error .unsupportedGroup
  | rest => lexFlags (rest.length + 1) f false 0 rest

/-- What an opening parenthesis starts. -/
def lexGroup (f : Flags) (rest : List Char) : LexResult := do
  match ← skipBlanks f.extended rest with
  | '?' :: rest => lexSpecial f rest
  | rest => return (.capture none,rest)

def Piece.ofEscaped (f : Flags) : Escaped → Piece
  | .char c => .ofChar f c
  | .class s => .ofSet s

/-- An escape that starts with `c` and stands for a character, a class or the group of a number. -/
def lexEscape (f : Flags) (c : Char) (rest : List Char) : LexResult :=
  if c.isDigit then
    match readDecimal? (c :: rest) with
    | some (n,rest) => .ok (.numberRef n,rest)
    | none => .error .unknownGroup
  else (readEscape f.fold c rest).map (fun (e,rest) => (.piece (.ofEscaped f e),rest))

/-- An escape outside brackets. -/
def lexBackslash (f : Flags) : List Char → LexResult
  | [] => .error .trailingBackslash
  | 'k' :: '<' :: rest => lexNameRef '>' rest
  | 'k' :: _ => .error .invalidGroupName
  | 'A' :: rest => .ok (.piece (.ofAssertion .textStart),rest)
  | 'z' :: rest => .ok (.piece (.ofAssertion .textEnd),rest)
  | 'b' :: rest => .ok (.piece (.ofAssertion .wordBoundary),rest)
  | 'B' :: rest => .ok (.piece (.ofAssertion .notWordBoundary),rest)
  | c :: rest => lexEscape f c rest

/-- The token that starts with `c`; `pending` tells whether there is a piece to repeat. -/
def lexeme (f : Flags) (pending : Bool) (c : Char) (rest : List Char) : LexResult := do
  match c with
  | '|' => return (.bar,rest)
  | ')' => return (.close,rest)
  | '?' => lexRounds f 0 (some 1) rest
  | '*' => lexRounds f 0 none rest
  | '+' => lexRounds f 1 none rest
  | '\x7b' =>
    match readBounds? f.extended rest with
    | some (least,most,rest') =>
      if pending then lexRounds f least most rest' else return (.piece (.ofChar f c),rest)
    | none => return (.piece (.ofChar f c),rest)
  | '(' => lexGroup f rest
  | '\\' => lexBackslash f rest
  | '[' =>
    let (s,rest) ← readSet f.fold rest
    return (.piece (.ofSet s),rest)
  | '.' => return (.piece (.ofSet (if f.dotAll then .any else .notNewline)),rest)
  | '^' => return (.piece (.ofAssertion (if f.multiline then .lineStart else .textStart)),rest)
  | '$' => return (.piece (.ofAssertion (if f.multiline then .lineEnd else .textEnd)),rest)
  | c => return (.piece (.ofChar f c),rest)

end Highlight.Regex
