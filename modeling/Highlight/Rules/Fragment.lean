/-!
Pattern texts as fragments of a larger one. A light scan finds what matters for joining them:
opening parentheses, back-references, escapes and character sets. Its tokens spell out the text
again. Joined fragments each stand in a capture group of their own, and their back-references are
moved to keep their targets.
-/
namespace Highlight.Rules

/-- The pieces of a pattern text. -/
inductive Token where
  | plain (c : Char)
  /-- A whole character set, by the text between its brackets. -/
  | set (body : List Char)
  | group
  /-- A parenthesis with a question mark, and whether it opens a capture group. -/
  | special (captures : Bool)
  | reference (digits : List Char)
  | escape (c : Char)
  deriving DecidableEq, Repr

namespace Token

def text : Token → List Char
  | plain c => [c]
  | set body => '[' :: body ++ [']']
  | group => ['(']
  | special _ => ['(','?']
  | reference digits => '\\' :: digits
  | escape c => ['\\',c]

def captures : Token → Bool
  | group | special true => true
  | _ => false

end Token

/-- The text of a character set after its opening bracket, up to the bracket that closes it, and
what follows. A backslash must be followed by a character on the same line. -/
def setBody? : List Char → Option (List Char × List Char)
  | [] | ['\\'] => none
  | ']' :: rest => some ([],rest)
  | '\\' :: c :: rest =>
    if c = '\n' then none
    else (setBody? rest).map (fun (body,rest) => ('\\' :: c :: body,rest))
  | c :: rest => (setBody? rest).map (fun (body,rest) => (c :: body,rest))

/-- Whether a group is named, by the text after its question mark. -/
def opensNamed : List Char → Bool
  | 'P' :: '<' :: _ => true
  | '<' :: '=' :: _ | '<' :: '!' :: _ => false
  | '<' :: _ => true
  | _ => false

/-- The first token of a text that is not empty, and what follows it. -/
def nextToken (c : Char) (rest : List Char) : Token × List Char :=
  match c, rest with
  | '[', rest =>
    match setBody? rest with
    | some (body,rest) => (.set body,rest)
    | none => (.plain '[',rest)
  | '(', '?' :: rest => (.special (opensNamed rest),rest)
  | '(', rest => (.group,rest)
  | '\\', d :: rest =>
    if '1' ≤ d && d ≤ '9' then
      (.reference (d :: rest.takeWhile Char.isDigit),rest.dropWhile Char.isDigit)
    else if d = '\n' then (.plain '\\',d :: rest)
    else (.escape d,rest)
  | c, rest => (.plain c,rest)

/-- At most `n` tokens of a text. -/
def tokensWithin : Nat → List Char → List Token
  | 0, _ | _, [] => []
  | n + 1, c :: rest =>
    let (token,rest) := nextToken c rest
    token :: tokensWithin n rest

/-- The tokens of a text. -/
def tokens (text : String) : List Token := tokensWithin text.toList.length text.toList

theorem setBody?_text {cs body rest : List Char} (h : setBody? cs = some (body,rest)) :
    cs = body ++ ']' :: rest := by
  induction cs using setBody?.induct generalizing body with
  | case1 => simp [setBody?] at h
  | case2 => simp [setBody?] at h
  | case3 => simp_all [setBody?]
  | case4 => simp [setBody?] at h
  | case5 c rest' hc ih =>
    simp only [setBody?,hc,if_false,Option.map_eq_some_iff,Prod.mk.injEq,Prod.exists] at h
    obtain ⟨b,r,hb,rfl,rfl⟩ := h
    simp [ih hb]
  | case6 c rest' h1 h2 h3 ih =>
    rw [setBody?] at h <;> try assumption
    obtain ⟨⟨b,r⟩,hb,hbr⟩ := Option.map_eq_some_iff.1 h
    obtain ⟨rfl,rfl⟩ := Prod.mk.inj hbr
    simp [ih hb]

/-- The largest group number that a reference may write. -/
def maxReference : Nat := UInt64.size - 1

def digitsValue (digits : List Char) : Nat :=
  digits.foldl (fun n c => 10 * n + (c.toNat - '0'.toNat)) 0

/-- The text of a token after its reference, if it is one, has moved by `offset`. Numbers are added in
64 bits and start again from zero behind the largest. -/
def Token.shifted (offset : Nat) : Token → List Char
  | reference digits =>
    if digitsValue digits ≤ maxReference then
      '\\' :: (toString ((digitsValue digits + offset) % UInt64.size)).toList
    else '\\' :: digits
  | t => t.text

/-- The pattern with all its references moved by `offset`. -/
def shiftReferences (offset : Nat) (pattern : String) : String :=
  String.ofList ((tokens pattern).flatMap (Token.shifted offset))

/-- Number of capture groups that a pattern opens. -/
def countGroups (pattern : String) : Nat := (tokens pattern).countP (·.captures)

/-- Fragments in one alternation, and the capture group around each. -/
structure Joined where
  source : String
  groups : List Nat
  deriving DecidableEq, Repr

/-- The fragments from here on, `captured` being the groups opened before them. -/
def wrapFrom (captured : Nat) : List String → List (String × Nat)
  | [] => []
  | p :: rest =>
    let offset := captured + 1
    ("(" ++ shiftReferences offset p ++ ")",offset) :: wrapFrom (offset + countGroups p) rest

/-- Join fragments, each in its own capture group. -/
def join (patterns : List String) (separator : String) : Joined :=
  let wrapped := wrapFrom 0 patterns
  { source := separator.intercalate (wrapped.map (·.1)), groups := wrapped.map (·.2) }

example : join ["(a)\\1","(b)\\1"] "|" = ⟨"((a)\\2)|((b)\\4)",[1,3]⟩ := by decide +kernel
example : countGroups "[(](?<n>a)(?:b)\\((c)" = 2 := by decide +kernel

end Highlight.Rules
