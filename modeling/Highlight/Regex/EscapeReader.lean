import Highlight.Regex.CharSet
import Highlight.Regex.Error

/-! Escapes that stand for a character or a class, and the small readers they share. -/
namespace Highlight.Regex

open Highlight.Text

/-- The digits at the start of a text and what follows them. -/
def takeDigits (cs : List Char) : List Char × List Char :=
  (cs.takeWhile Char.isDigit,cs.dropWhile Char.isDigit)

/-- The number that decimal digits write. -/
def decimalValue (digits : List Char) : Nat :=
  digits.foldl (fun n c => 10 * n + (c.toNat - '0'.toNat)) 0

/-- A decimal number that fits in 64 bits. -/
def readDecimal? (cs : List Char) : Option (Nat × List Char) :=
  let (digits,rest) := takeDigits cs
  if digits.isEmpty || UInt64.size ≤ decimalValue digits then none
  else some (decimalValue digits,rest)

/-- Whether a mark stands here, and what follows. -/
def takeMark (mark : Char) (cs : List Char) : Bool × List Char :=
  if cs.head? = some mark then (true,cs.tail) else (false,cs)

def hexValue? (c : Char) : Option Nat :=
  if c.isDigit then some (c.toNat - '0'.toNat)
  else if 'a' ≤ c && c ≤ 'f' then some (c.toNat - 'a'.toNat + 10)
  else if 'A' ≤ c && c ≤ 'F' then some (c.toNat - 'A'.toNat + 10)
  else none

def isHex (c : Char) : Bool := (hexValue? c).isSome

def hexNumber (digits : List Char) : Nat :=
  digits.foldl (fun n c => 16 * n + (hexValue? c).getD 0) 0

/-- The character of a code point, if it has one. -/
def charOfCode? (n : Nat) : Except PatternError Char :=
  if n.isValidChar then .ok (Char.ofNat n) else .error .invalidCodePoint

/-- A code point in braces, after the opening one. -/
def readBracedHex (cs : List Char) : Except PatternError (Char × List Char) :=
  let inside := cs.takeWhile isHex
  let (closed,rest) := takeMark '\x7d' (cs.dropWhile isHex)
  if !closed || inside.isEmpty || 8 < inside.length then .error .unknownEscape
  else (charOfCode? (hexNumber inside)).map (fun c => (c,rest))

/-- A code point after its introducing letter: as many digits as the letter asks for, or up to
eight in braces. -/
def readHex (digits : Nat) (cs : List Char) : Except PatternError (Char × List Char) :=
  let start := cs.take digits
  if start.length = digits && start.all isHex then
    (charOfCode? (hexNumber start)).map (fun c => (c,cs.drop digits))
  else if cs.head? = some '\x7b' then readBracedHex cs.tail
  else .error .unknownEscape

/-- A name between delimiters that have been opened already. -/
def readName? (close : Char) (cs : List Char) : Option (String × List Char) :=
  let name := cs.takeWhile isNameChar
  match cs.dropWhile isNameChar with
  | c :: rest => if c = close && !name.isEmpty then some (String.ofList name,rest) else none
  | [] => none

/-- What an escape of a character or class stands for. -/
inductive Escaped where
  | char (c : Char)
  | class (s : CharSet)

/-- The name of a class after its introducing letter: one character, or a text in braces. -/
def readClassName (cs : List Char) : Except PatternError (String × List Char) :=
  match cs with
  | [] => .error .unknownEscape
  | '\x7b' :: cs =>
    match cs.dropWhile (· != '\x7d') with
    | [] => .error .unclosedClassName
    | _ :: rest => .ok (String.ofList (cs.takeWhile (· != '\x7d')),rest)
  | c :: rest => .ok (String.singleton c,rest)

/-- A named class, closed under case if `fold` is set and then complemented if `negated` is. -/
def readNamedClass (fold negated : Bool) (cs : List Char) :
    Except PatternError (Escaped × List Char) := do
  let (name,rest) ← readClassName cs
  match namedClass? name with
  | some s => return (.class (.complIf negated (.foldIf fold s)),rest)
  | none => .error .unknownClass

def hexDigits : CharSet := .unions [.range '0' '9',.range 'A' 'F',.range 'a' 'f']

/-- What a letter stands for after a backslash if nothing else belongs to the escape. Letters without
a meaning are refused, other characters stand for themselves. -/
def simpleEscape : Char → Except PatternError Escaped
  | 'd' => .ok (.class (.property .digit))
  | 'D' => .ok (.class (.compl (.property .digit)))
  | 's' => .ok (.class (.property .space))
  | 'S' => .ok (.class (.compl (.property .space)))
  | 'w' => .ok (.class (.property .word))
  | 'W' => .ok (.class (.compl (.property .word)))
  | 'h' => .ok (.class hexDigits)
  | 'H' => .ok (.class (.compl hexDigits))
  | 'a' => .ok (.char '\x07')
  | 'b' => .ok (.char '\x08')
  | 'e' => .ok (.char '\x1b')
  | 'f' => .ok (.char '\x0c')
  | 'n' => .ok (.char '\n')
  | 'r' => .ok (.char '\r')
  | 't' => .ok (.char '\t')
  | 'v' => .ok (.char '\x0b')
  | c => if c.isAlpha then .error .unknownEscape else .ok (.char c)

/-- How many digits a letter asks for that introduces a code point. -/
def hexWidth? : Char → Option Nat
  | 'x' => some 2
  | 'u' => some 4
  | 'U' => some 8
  | _ => none

/-- The escape that starts with the letter `c`, as far as it stands for a character or a class. -/
def readEscape (fold : Bool) (c : Char) (rest : List Char) :
    Except PatternError (Escaped × List Char) :=
  match hexWidth? c with
  | some digits => (readHex digits rest).map (fun (c,rest) => (.char c,rest))
  | none =>
    if c = 'p' || c = 'P' then readNamedClass fold (c = 'P') rest
    else (simpleEscape c).map (fun e => (e,rest))

end Highlight.Regex
