import Highlight.Text.LowerCase
import Highlight.Text.Property

/-!
Keywords. A declaration lists words, by class if there are several; a word may carry a score after
a bar. A word without one scores one, unless it is so common that it tells nothing.
-/
namespace Highlight

/-- Largest relevance; sums stop there. -/
def maxRelevance : Nat := UInt32.size - 1

/-- The sum of two relevances. -/
def addRelevance (a b : Nat) : Nat := min (a + b) maxRelevance

inductive Keywords where
  | plain (words : String)
  | classes (groups : List (String × String))
  deriving DecidableEq, Repr

namespace Keywords

/-- The declared lists of words, each with its class. -/
def groups : Keywords → List (String × String)
  | plain words => [("keyword",words)]
  | classes groups => groups

end Keywords

structure KeywordEntry where
  className : String
  relevance : Nat
  deriving DecidableEq, Repr

/-- Entries by word; each word has at most one. -/
structure KeywordTable where
  entries : List (String × KeywordEntry) := []
  deriving DecidableEq, Repr

namespace KeywordTable

def find? (t : KeywordTable) (word : String) : Option KeywordEntry := t.entries.lookup word

def insert (t : KeywordTable) (word : String) (e : KeywordEntry) : KeywordTable :=
  { entries := (word,e) :: t.entries.filter (fun entry => entry.1 != word) }

@[simp] theorem find?_insert_self (t : KeywordTable) (word : String) (e : KeywordEntry) :
    (t.insert word e).find? word = some e := by
  simp [insert,find?]

end KeywordTable

/-- Words that score nothing unless a score is written. -/
def commonWords : List String := ["of","and","for","in","not","or","if","then"]

/-- A score in decimal digits, which may follow a plus sign. -/
def readScore? (cs : List Char) : Option Nat :=
  let digits := match cs with
    | '+' :: rest => rest
    | cs => cs
  let value := digits.foldl (fun n c => 10 * n + (c.toNat - '0'.toNat)) 0
  if !digits.isEmpty && digits.all Char.isDigit && value ≤ maxRelevance then some value else none

/-- A declared word and the text after its first bar, if it has one. -/
def splitScore (word : String) : String × Option (List Char) :=
  let cs := word.toList
  (String.ofList (cs.takeWhile (· != '|')),
    match cs.dropWhile (· != '|') with
    | [] => none
    | _ :: score => some score)

/-- The word and its score. -/
def scoreWord (declared : String) : String × Nat :=
  let (word,score) := splitScore declared
  (word,(score.bind readScore?).getD (if commonWords.contains (Text.lower word) then 0 else 1))

namespace KeywordTable

/-- Add a list of words of one class. -/
def addWords (t : KeywordTable) (className words : String) (ignoreCase : Bool) : KeywordTable :=
  (Text.words (if ignoreCase then Text.lower words else words)).foldl
    (fun t declared =>
      let (word,relevance) := scoreWord declared
      t.insert word { className, relevance }) t

/-- The table of a declaration. A later declaration of a word replaces an earlier one; if case is
ignored, words are kept in lower case. -/
def ofKeywords (declared : Keywords) (ignoreCase : Bool) : KeywordTable :=
  declared.groups.foldl (fun t (className,words) => t.addWords className words ignoreCase) {}

end KeywordTable

example : scoreWord "if|3" = ("if",3) ∧ scoreWord "a|+7" = ("a",7) ∧ scoreWord "a|b" = ("a",1) := by
  decide +kernel

end Highlight
