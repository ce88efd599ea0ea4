import Highlight.Regex.Reader
import Highlight.Rules.Fragment
import Mathlib.Tactic.Lemma

/-!
The light scan of a pattern text, one token at a time: what it makes of the first character, how it
goes on, and what moving the references leaves as it is.
-/
namespace Highlight.Rules

/-- The tokens of a text that is given by its characters. -/
def tokensOf (cs : List Char) : List Token := tokensWithin cs.length cs

/-- A text after its references have moved by `offset`. -/
def shiftChars (offset : Nat) (cs : List Char) : List Char :=
  (tokensOf cs).flatMap (Token.shifted offset)

/-- Number of capture groups that a text opens. -/
def groupCount (cs : List Char) : Nat := (tokensOf cs).countP Token.captures

lemma shiftReferences_toList (offset : Nat) (pattern : String) :
    (shiftReferences offset pattern).toList = shiftChars offset pattern.toList :=
  String.toList_ofList

lemma countGroups_eq (pattern : String) : countGroups pattern = groupCount pattern.toList := rfl

lemma setBody?_length {cs body rest : List Char} (h : setBody? cs = some (body,rest)) :
    rest.length < cs.length := by
  rw [setBody?_text h,List.length_append,List.length_cons]
  omega

lemma nextToken_length (c : Char) (rest : List Char) : (nextToken c rest).2.length ≤ rest.length := by
  unfold nextToken
  split
  · split
    · rename_i h
      exact Nat.le_of_lt (setBody?_length h)
    · exact Nat.le_refl _
  · exact Nat.le_succ _
  · exact Nat.le_refl _
  · split
    · exact Nat.le_trans (List.dropWhile_sublist _).length_le (Nat.le_succ _)
    · split
      · exact Nat.le_refl _
      · exact Nat.le_succ _
  · exact Nat.le_refl _

lemma tokensWithin_eq {n m : Nat} {cs : List Char} (hn : cs.length ≤ n) (hm : cs.length ≤ m) :
    tokensWithin n cs = tokensWithin m cs := by
  induction n generalizing m cs with
  | zero =>
    rw [List.eq_nil_of_length_eq_zero (Nat.le_zero.mp hn)]
    cases m <;> rfl
  | succ n ih =>
    cases cs with
    | nil => cases m <;> rfl
    | cons c rest =>
      cases m with
      | zero => simp at hm
      | succ m =>
        have hlen := nextToken_length c rest
        simp only [List.length_cons] at hn hm
        simp only [tokensWithin]
        rw [ih (by omega) (show _ ≤ m by omega)]

@[simp] lemma tokensOf_nil : tokensOf [] = [] := rfl

lemma tokensOf_cons (c : Char) (rest : List Char) :
    tokensOf (c :: rest) = (nextToken c rest).1 :: tokensOf (nextToken c rest).2 := by
  simp only [tokensOf,List.length_cons,tokensWithin]
  rw [tokensWithin_eq (nextToken_length c rest) (Nat.le_refl _)]

@[simp] lemma shiftChars_nil (o : Nat) : shiftChars o [] = [] := rfl

lemma shiftChars_cons (o : Nat) (c : Char) (rest : List Char) :
    shiftChars o (c :: rest) = (nextToken c rest).1.shifted o ++ shiftChars o (nextToken c rest).2 := by
  rw [shiftChars,tokensOf_cons,List.flatMap_cons]
  rfl

@[simp] lemma groupCount_nil : groupCount [] = 0 := rfl

lemma groupCount_cons (c : Char) (rest : List Char) : groupCount (c :: rest) =
    groupCount (nextToken c rest).2 + if (nextToken c rest).1.captures then 1 else 0 := by
  rw [groupCount,tokensOf_cons,List.countP_cons]
  rfl

/-- A character that has no meaning to the light scan. -/
def IsOrdinary (c : Char) : Prop := c ≠ '[' ∧ c ≠ '(' ∧ c ≠ '\\'

lemma nextToken_ordinary {c : Char} (h : IsOrdinary c) (rest : List Char) :
    nextToken c rest = (.plain c,rest) := by
  obtain ⟨h1,h2,h3⟩ := h
  unfold nextToken
  split <;> simp_all

lemma opensNamed_angle {cs : List Char} (h : ∀ rest, cs ≠ '=' :: rest) (h' : ∀ rest, cs ≠ '!' :: rest) :
    opensNamed ('<' :: cs) = true := by
  unfold opensNamed
  split
  · rfl
  · rename_i heq
    exact absurd (List.cons.inj heq).2 (h _)
  · rename_i heq
    exact absurd (List.cons.inj heq).2 (h' _)
  · rfl
  · rename_i hno
    exact absurd rfl (hno cs)

lemma opensNamed_eq_false {cs : List Char} (h : ∀ rest, cs ≠ '<' :: rest) (h' : ∀ rest, cs ≠ 'P' :: '<' :: rest) :
    opensNamed cs = false := by
  unfold opensNamed
  split
  · exact absurd rfl (h' _)
  · rfl
  · rfl
  · exact absurd rfl (h _)
  · rfl

lemma nextToken_special (rest : List Char) :
    nextToken '(' ('?' :: rest) = (.special (opensNamed rest),rest) := rfl

lemma nextToken_group {rest : List Char} (h : rest.head? ≠ some '?') :
    nextToken '(' rest = (.group,rest) := by
  unfold nextToken
  split <;> simp_all

lemma nextToken_set {body rest : List Char} (h : setBody? (body ++ ']' :: rest) = some (body,rest)) :
    nextToken '[' (body ++ ']' :: rest) = (.set body,rest) := by
  simp only [nextToken,h]

/-- Whether a digit after a backslash starts a reference. -/
def startsReference (d : Char) : Bool := '1' ≤ d && d ≤ '9'

lemma nextToken_reference {d : Char} (h : startsReference d = true) (rest : List Char) :
    nextToken '\\' (d :: rest) =
      (.reference (d :: rest.takeWhile Char.isDigit),rest.dropWhile Char.isDigit) := by
  simp only [startsReference] at h
  simp only [nextToken,h,if_true]

lemma nextToken_escape {d : Char} (h : startsReference d = false) (hd : d ≠ '\n') (rest : List Char) :
    nextToken '\\' (d :: rest) = (.escape d,rest) := by
  simp only [startsReference] at h
  simp [nextToken,h,hd]

end Highlight.Rules

/-!
Pattern texts that the light scan reads as the reader of patterns does, also when they are put into
one more group. What the reader passes over in one go, such as a name, is of no interest to the scan.
-/
namespace Highlight.Rules

open Regex

/-- The characters between a question mark and the end of inline flags. -/
def isFlagChar (c : Char) : Bool := ['-','i','m','s','U','u','x'].contains c

/-- Whether what stands where a name is expected may be read as a number. -/
def startsNumeral (cs : List Char) : Bool := (cs.takeWhile Text.isNameChar).all Char.isDigit

/-- Whether a set has a bracket in it, apart from escapes. -/
def hasBracket : List Char → Bool
  | [] => false
  | '[' :: _ => true
  | '\\' :: _ :: cs => hasBracket cs
  | _ :: cs => hasBracket cs

/-- Deepest nesting of groups in a text that is put into one more group. -/
def maxInnerDepth : Nat := maxDepth - 2

namespace Token

/-- Whether the reader takes a token for what it is, given what follows it. Sets have no bracket in
them and none at the start, and are closed; there is no comment, no condition, no extended mode and no
numeral in place of a name; references have no leading zero, and no escape moves the start of a match.
There are only named groups or only references by number. -/
def fits (named : Bool) (rest : List Char) : Token → Bool
  | plain c => c != '['
  | set body => !body.isEmpty && body != ['^'] && !hasBracket body
  | group => true
  | special captures => (!captures || named) && rest.head? != some '#' && rest.head? != some '(' &&
      !(rest.takeWhile isFlagChar).contains 'x' &&
      !(['P','='].isPrefixOf rest && startsNumeral (rest.drop 2))
  | reference _ => !named
  | escape c =>
    if c = '0' then !named && !rest.head?.any Char.isDigit
    else c != 'K' && c != 'G' && !(c == 'k' && rest.head? == some '<' && startsNumeral (rest.drop 1))

/-- The groups that are open after a token, `depth` being open before. -/
def depthAfter (depth : Nat) : Token → Nat
  | group | special _ => depth + 1
  | plain c => if c = ')' then depth - 1 else depth
  | _ => depth

end Token

/-- Whether at most `n` tokens fit, where so many groups are open. -/
def fitsWithin (named : Bool) : Nat → Nat → List Char → Bool
  | 0, _, _ | _, _, [] => true
  | n + 1, depth, c :: rest =>
    let (t,rest) := nextToken c rest
    t.fits named rest && decide (t.depthAfter depth ≤ maxInnerDepth) &&
      fitsWithin named n (t.depthAfter depth) rest

/-- The tokens of a text fit, and so do the depths of its groups. -/
def FitsFrom (named : Bool) (depth : Nat) (cs : List Char) : Prop :=
  fitsWithin named cs.length depth cs = true

variable {named : Bool} {d : Nat} {o : Nat} {c : Char} {cs rest : List Char}

lemma fitsWithin_eq {n m : Nat} (hn : cs.length ≤ n) (hm : cs.length ≤ m) :
    fitsWithin named n d cs = fitsWithin named m d cs := by
  induction n generalizing m d cs with
  | zero =>
    rw [List.eq_nil_of_length_eq_zero (Nat.le_zero.mp hn)]
    cases m <;> rfl
  | succ n ih =>
    cases cs with
    | nil => cases m <;> rfl
    | cons c rest =>
      cases m with
      | zero => simp at hm
      | succ m =>
        have hlen := nextToken_length c rest
        simp only [List.length_cons] at hn hm
        simp only [fitsWithin]
        rw [ih (by omega) (show _ ≤ m by omega)]

lemma fitsFrom_cons : FitsFrom named d (c :: rest) ↔
    (nextToken c rest).1.fits named (nextToken c rest).2 = true ∧
      (nextToken c rest).1.depthAfter d ≤ maxInnerDepth ∧
        FitsFrom named ((nextToken c rest).1.depthAfter d) (nextToken c rest).2 := by
  simp only [FitsFrom,List.length_cons,fitsWithin,Bool.and_eq_true,decide_eq_true_eq,and_assoc]
  rw [fitsWithin_eq (nextToken_length c rest) (Nat.le_refl _)]

end Highlight.Rules
