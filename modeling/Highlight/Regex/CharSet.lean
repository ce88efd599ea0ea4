import Highlight.Text.CaseFold
import Highlight.Text.Property

/-! Sets of characters as written in patterns: single characters, ranges, named classes and their
Boolean combinations, closed under case where the pattern ignores it. -/
namespace Highlight.Regex

open Highlight.Text

/-- Named classes of characters. -/
inductive CharProperty where
  | digit | space | word
  | categories (members : List Category)
  deriving DecidableEq, Repr

namespace CharProperty

def holds : CharProperty → Char → Bool
  | digit, c => isDigit c
  | space, c => isSpace c
  | word, c => isWord c
  | categories members, c => members.contains (.of c)

end CharProperty

inductive CharSet where
  | empty
  | single (c : Char)
  | range (first last : Char)
  | property (p : CharProperty)
  | compl (s : CharSet)
  | union (s t : CharSet)
  | inter (s t : CharSet)
  /-- All characters that agree with a member but for case. -/
  | folded (s : CharSet)
  deriving DecidableEq, Repr

namespace CharSet

def contains : CharSet → Char → Bool
  | empty, _ => false
  | single a, c => a == c
  | range first last, c => decide (first ≤ c) && decide (c ≤ last)
  | property p, c => p.holds c
  | compl s, c => !s.contains c
  | union s t, c => s.contains c || t.contains c
  | inter s t, c => s.contains c && t.contains c
  | folded s, c => (orbit c).any s.contains

def any : CharSet := compl empty
def notNewline : CharSet := compl (single '\n')
def diff (s t : CharSet) : CharSet := inter s (compl t)
def symmDiff (s t : CharSet) : CharSet := union (diff s t) (diff t s)
def unions (sets : List CharSet) : CharSet := sets.foldr union empty

/-- The set, closed under case if `fold` is set. -/
def foldIf (fold : Bool) (s : CharSet) : CharSet := if fold then folded s else s

def complIf (negated : Bool) (s : CharSet) : CharSet := if negated then compl s else s

@[simp] theorem contains_any (c : Char) : any.contains c = true := rfl
@[simp] theorem contains_diff (s t : CharSet) (c : Char) :
    (diff s t).contains c = (s.contains c && !t.contains c) := rfl
@[simp] theorem contains_notNewline (c : Char) : notNewline.contains c = (c != '\n') := by
  simp [notNewline,contains,bne,BEq.comm]

end CharSet

/-- Classes of characters below 128 that have a name of their own in brackets. -/
def asciiClass? : String → Option CharSet
  | "alnum" => some (.unions [.range '0' '9',.range 'A' 'Z',.range 'a' 'z'])
  | "alpha" => some (.union (.range 'A' 'Z') (.range 'a' 'z'))
  | "ascii" => some (.range '\x00' '\x7f')
  | "blank" => some (.union (.single '\t') (.single ' '))
  | "cntrl" => some (.union (.range '\x00' '\x1f') (.single '\x7f'))
  | "digit" => some (.range '0' '9')
  | "graph" => some (.range '!' '~')
  | "lower" => some (.range 'a' 'z')
  | "print" => some (.range ' ' '~')
  | "punct" => some (.unions [.range '!' '/',.range ':' '@',.range '[' '`',.range '\x7b' '~'])
  | "space" => some (.union (.range '\t' '\r') (.single ' '))
  | "upper" => some (.range 'A' 'Z')
  | "word" => some (.unions [.range '0' '9',.range 'A' 'Z',.range 'a' 'z',.single '_'])
  | "xdigit" => some (.unions [.range '0' '9',.range 'A' 'F',.range 'a' 'f'])
  | _ => none

/-- Long names of general categories and of their groups, in lower case without separators. -/
def categoryNames : List (String × List Category) :=
  ([("letter",[.Lu,.Ll,.Lt,.Lm,.Lo]),("l",[.Lu,.Ll,.Lt,.Lm,.Lo]),
    ("casedletter",[.Lu,.Ll,.Lt]),("lc",[.Lu,.Ll,.Lt]),
    ("mark",[.Mn,.Mc,.Me]),("m",[.Mn,.Mc,.Me]),("combiningmark",[.Mn,.Mc,.Me]),
    ("number",[.Nd,.Nl,.No]),("n",[.Nd,.Nl,.No]),
    ("punctuation",[.Pc,.Pd,.Ps,.Pe,.Pi,.Pf,.Po]),("p",[.Pc,.Pd,.Ps,.Pe,.Pi,.Pf,.Po]),
    ("punct",[.Pc,.Pd,.Ps,.Pe,.Pi,.Pf,.Po]),
    ("symbol",[.Sm,.Sc,.Sk,.So]),("s",[.Sm,.Sc,.Sk,.So]),
    ("separator",[.Zs,.Zl,.Zp]),("z",[.Zs,.Zl,.Zp]),
    ("other",[.Cc,.Cf,.Cs,.Co,.Cn]),("c",[.Cc,.Cf,.Cs,.Co,.Cn]),
    ("uppercaseletter",[.Lu]),("lowercaseletter",[.Ll]),("titlecaseletter",[.Lt]),
    ("modifierletter",[.Lm]),("otherletter",[.Lo]),("nonspacingmark",[.Mn]),
    ("spacingmark",[.Mc]),("enclosingmark",[.Me]),("decimalnumber",[.Nd]),("digit",[.Nd]),
    ("letternumber",[.Nl]),("othernumber",[.No]),("connectorpunctuation",[.Pc]),
    ("dashpunctuation",[.Pd]),("openpunctuation",[.Ps]),("closepunctuation",[.Pe]),
    ("initialpunctuation",[.Pi]),("finalpunctuation",[.Pf]),("otherpunctuation",[.Po]),
    ("mathsymbol",[.Sm]),("currencysymbol",[.Sc]),("modifiersymbol",[.Sk]),
    ("othersymbol",[.So]),("spaceseparator",[.Zs]),("lineseparator",[.Zl]),
    ("paragraphseparator",[.Zp]),("control",[.Cc]),("cntrl",[.Cc]),("format",[.Cf]),
    ("surrogate",[.Cs]),("privateuse",[.Co]),("unassigned",[.Cn])] :
      List (String × List Category)) ++
    Category.names.map (fun (name,category) => (name.toLower,[category]))

/-- The class that a name in braces stands for. Case, blanks, hyphens and underscores do not
count. -/
def namedClass? (name : String) : Option CharSet :=
  let key := String.ofList
    ((name.toList.filter (fun c => c != ' ' && c != '_' && c != '-')).map Char.toLower)
  match key with
  | "any" => some .any
  | "ascii" => some (.range '\x00' '\x7f')
  | "assigned" => some (.compl (.property (.categories [.Cn])))
  | "whitespace" | "wspace" | "space" => some (.property .space)
  | _ => (categoryNames.lookup key).map (fun members => .property (.categories members))

end Highlight.Regex
