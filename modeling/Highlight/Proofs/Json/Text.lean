import Highlight.Regex.Basic
import Mathlib.Tactic.Lemma

/-!
The texts of JSON, as trees over the grammar of RFC 8259. A tree keeps the blanks and the spelling of each
token, so that it stands for one text, and no text but those of the grammar has one.
-/
namespace Highlight.JsonText

/-- What is checked of each entry of a list holds of them. -/
lemma forall_of_all {α : Type} {p : α → Prop} [DecidablePred p] {l : List α}
    (h : l.all (fun a => decide (p a)) = true) : ∀ a ∈ l, p a :=
  fun a ha => of_decide_eq_true (List.all_eq_true.mp h a ha)

def blankChars : List Char := [' ','\t','\n','\r']

def isBlank (c : Char) : Bool := blankChars.contains c

def isHex (c : Char) : Bool := c.isDigit || ('a' ≤ c && c ≤ 'f') || ('A' ≤ c && c ≤ 'F')

/-- Characters that stand for themselves in a string. -/
def isUnescaped (c : Char) : Bool := 0x20 ≤ c.toNat && c != '"' && c != '\\'

/-- The letters of escapes, other than that for a code point. -/
def escapeLetters : List Char := ['"','\\','/','b','f','n','r','t']

/-- Characters of a kind, as many as may be. -/
abbrev Run (kind : Char → Bool) := { cs : List Char // ∀ c ∈ cs, kind c = true }

abbrev Blank := Run isBlank

def Blank.none : Blank := ⟨[],fun _ hc => by cases hc⟩

def Blank.spaces (n : Nat) : Blank := ⟨List.replicate n ' ',fun c hc => by rw [List.eq_of_mem_replicate hc]; rfl⟩

/-- Digits, one at least. -/
structure Digits where
  first : Char
  rest : Run Char.isDigit
  isDigit : first.isDigit = true

def Digits.chars (d : Digits) : List Char := d.first :: d.rest.val

/-- What a string is made of. -/
inductive Piece where
  | unescaped (c : Char) (h : isUnescaped c = true)
  | escape (letter : Char) (h : letter ∈ escapeLetters)
  | codePoint (digits : Run isHex) (h : digits.val.length = 4)

def Piece.chars : Piece → List Char
  | unescaped c _ => [c]
  | escape letter _ => ['\\',letter]
  | codePoint digits _ => '\\' :: 'u' :: digits.val

/-- A string with its quotes. -/
def quoted (pieces : List Piece) : List Char := '"' :: pieces.flatMap Piece.chars ++ ['"']

/-- The part of a number before its point. A zero does not lead other digits. -/
inductive Whole where
  | zero
  | other (digits : Digits) (h : digits.first ≠ '0')

def Whole.chars : Whole → List Char
  | zero => ['0']
  | other digits _ => digits.chars

structure Exponent where
  mark : Char
  sign : Option Char
  digits : Digits
  isMark : mark = 'e' ∨ mark = 'E'
  isSign : ∀ c ∈ sign, c = '-' ∨ c = '+'

def Exponent.chars (e : Exponent) : List Char := e.mark :: e.sign.toList ++ e.digits.chars

structure Number where
  negative : Bool
  whole : Whole
  fraction : Option Digits
  exponent : Option Exponent

namespace Number

def signChars (n : Number) : List Char := if n.negative then ['-'] else []
def fractionChars (n : Number) : List Char := n.fraction.elim [] (fun d => '.' :: d.chars)
def exponentChars (n : Number) : List Char := n.exponent.elim [] Exponent.chars

def chars (n : Number) : List Char := n.signChars ++ n.whole.chars ++ n.fractionChars ++ n.exponentChars

end Number

inductive Literal where
  | true | false | null
  deriving DecidableEq

def Literal.chars : Literal → List Char
  | true => ['t','r','u','e']
  | false => ['f','a','l','s','e']
  | null => ['n','u','l','l']

mutual

inductive Value where
  | literal (l : Literal)
  | number (n : Number)
  | string (pieces : List Piece)
  | emptyArray (blank : Blank)
  | array (items : Items)
  | emptyObject (blank : Blank)
  | object (members : Members)

/-- A value with the blanks around it. -/
inductive Padded where
  | mk (before : Blank) (value : Value) (after : Blank)

/-- The values of an array, with commas in between. -/
inductive Items where
  | last (item : Padded)
  | more (item : Padded) (rest : Items)

/-- The members of an object, with commas in between. -/
inductive Members where
  | last (before : Blank) (name : List Piece) (after : Blank) (value : Padded)
  | more (before : Blank) (name : List Piece) (after : Blank) (value : Padded) (rest : Members)

end

/-! The text of each part. -/
mutual

def Value.chars : Value → List Char
  | .literal l => l.chars
  | .number n => n.chars
  | .string pieces => quoted pieces
  | .emptyArray blank => '[' :: blank.val ++ [']']
  | .array items => '[' :: items.chars ++ [']']
  | .emptyObject blank => '{' :: blank.val ++ ['}']
  | .object members => '{' :: members.chars ++ ['}']

def Padded.chars : Padded → List Char
  | .mk before value after => before.val ++ value.chars ++ after.val

def Items.chars : Items → List Char
  | .last item => item.chars
  | .more item rest => item.chars ++ ',' :: rest.chars

def Members.chars : Members → List Char
  | .last before name after value => before.val ++ quoted name ++ after.val ++ ':' :: value.chars
  | .more before name after value rest =>
    before.val ++ quoted name ++ after.val ++ ':' :: value.chars ++ ',' :: rest.chars

end

/-! The tokens of each part other than punctuation, each with its kind and its text. -/
mutual

def Value.tokens : Value → List (String × List Char)
  | .literal l => [("literal",l.chars)]
  | .number n => [("number",n.chars)]
  | .string pieces => [("string",quoted pieces)]
  | .emptyArray _ | .emptyObject _ => []
  | .array items => items.tokens
  | .object members => members.tokens

def Padded.tokens : Padded → List (String × List Char)
  | .mk _ value _ => value.tokens

def Items.tokens : Items → List (String × List Char)
  | .last item => item.tokens
  | .more item rest => item.tokens ++ rest.tokens

def Members.tokens : Members → List (String × List Char)
  | .last _ name _ value => ("attr",quoted name) :: value.tokens
  | .more _ name _ value rest => ("attr",quoted name) :: value.tokens ++ rest.tokens

end

/-! How deep containers nest in each part. -/
mutual

def Value.depth : Value → Nat
  | .literal _ | .number _ | .string _ => 0
  | .emptyArray _ | .emptyObject _ => 1
  | .array items => items.depth + 1
  | .object members => members.depth + 1

def Padded.depth : Padded → Nat
  | .mk _ value _ => value.depth

def Items.depth : Items → Nat
  | .last item => item.depth
  | .more item rest => max item.depth rest.depth

def Members.depth : Members → Nat
  | .last _ _ _ value => value.depth
  | .more _ _ _ value rest => max value.depth rest.depth

end

/-- The characters of a value that is a literal. -/
def Value.literal? : Value → Option Literal
  | .literal l => some l
  | _ => none

/-! The lengths of the stretches in arrays and in the values of members that lie between other tokens and
punctuation: blanks, with a literal in them if there is one. -/
mutual

def Value.stretches : Value → List Nat
  | .literal _ | .number _ | .string _ | .emptyObject _ => []
  | .emptyArray blank => [blank.val.length]
  | .array items => items.stretches
  | .object members => members.stretches

def Padded.stretches : Padded → List Nat
  | .mk before value after =>
    match value.literal? with
    | some l => [before.val.length + l.chars.length + after.val.length]
    | none => before.val.length :: value.stretches ++ [after.val.length]

def Items.stretches : Items → List Nat
  | .last item => item.stretches
  | .more item rest => item.stretches ++ rest.stretches

def Members.stretches : Members → List Nat
  | .last _ _ _ value => value.stretches
  | .more _ _ _ value rest => value.stretches ++ rest.stretches

end

/-- A whole text whose value is no literal. -/
structure Document where
  before : Blank
  value : Value
  after : Blank
  notLiteral : value.literal? = none

def Document.text (d : Document) : String := String.ofList (d.before.val ++ d.value.chars ++ d.after.val)

end Highlight.JsonText
