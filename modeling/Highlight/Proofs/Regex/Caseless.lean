import Highlight.Proofs.Regex.Composed
import Highlight.Proofs.Text.AsciiCase
import Highlight.Regex.Basic

/-!
Patterns that do not tell capital ASCII letters from small ones. If this holds of the sets of a pattern and
the pattern refers to no group, every search finds the same in a text as in the text with small letters.
-/
namespace Highlight.Regex

open Text

/-- A set that has a capital ASCII letter if and only if it has the small one. -/
def CharSet.Caseless (s : CharSet) : Prop := ∀ c : Char, s.contains c.toLower = s.contains c

namespace CharSet.Caseless

variable {s : CharSet}

lemma any : CharSet.any.Caseless := fun _ => rfl

lemma notNewline : CharSet.notNewline.Caseless := apply_toLower _ (by decide)

/-- A set that is closed under case. -/
lemma folded (s : CharSet) : (CharSet.folded s).Caseless := fun c => by
  rw [contains,contains,orbit_toLower]

lemma compl (h : s.Caseless) : (CharSet.compl s).Caseless := fun c => congrArg not (h c)

lemma complIf (h : s.Caseless) (negated : Bool) : (CharSet.complIf negated s).Caseless := by
  cases negated with
  | false => exact h
  | true => exact h.compl

lemma digit : (CharSet.property .digit).Caseless := isDigit_toLower

lemma space : (CharSet.property .space).Caseless := isSpace_toLower

lemma word : (CharSet.property .word).Caseless := isWord_toLower

lemma hexDigits : Regex.hexDigits.Caseless := apply_toLower _ (by decide)

end CharSet.Caseless

/-- A pattern of sets that do not tell letters by their case. A reference to a group asks for the text of
the group as it is. -/
def Pattern.Caseless : Pattern → Prop
  | empty | assert _ => True
  | set s => s.Caseless
  | cat p q | alt p q => p.Caseless ∧ q.Caseless
  | group _ p | loop p .. | look _ _ _ p | atomic _ p => p.Caseless
  | backref _ => False

lemma Pattern.composes_caseless : Pattern.Composes Pattern.Caseless where
  empty := trivial
  cat hp hq := ⟨hp,hq⟩
  alt := Iff.rfl
  look _ _ _ hp := hp
  atomic _ hp := hp

namespace Pattern.Caseless

variable {p : Pattern}

lemma settle (h : p.Caseless) (referenced : List Nat) : (p.settle referenced).Caseless := by
  induction p with
  | cat p q ihp ihq | alt p q ihp ihq => exact ⟨ihp h.1,ihq h.2⟩
  | group n p ih | loop p least most greedy ih | look direction negated settled p ih | atomic settled p ih =>
    exact ih h
  | empty | set s | assert a | backref n => exact h

end Pattern.Caseless

namespace Haystack

variable (t : Haystack)

/-- The text with small letters for its ASCII capitals. -/
def toLower : Haystack := { t with text := t.text.toLower }

@[simp] lemma size_toLower : t.toLower.size = t.size := t.text.size_toLower

@[simp] lemma origin_toLower : t.toLower.origin = t.origin := rfl

@[simp] lemma charAt?_toLower (i : Nat) : t.toLower.charAt? i = (t.charAt? i).map Char.toLower :=
  t.text.getElem?_toLower i

@[simp] lemma charBefore?_toLower (i : Nat) : t.toLower.charBefore? i = (t.charBefore? i).map Char.toLower := by
  rw [charBefore?,charBefore?,origin_toLower]
  split
  · rfl
  · exact t.text.getElem?_toLower (i - 1)

lemma isNewline_toLower (c? : Option Char) : (c?.map Char.toLower == some '\n') = (c? == some '\n') := by
  cases c? with
  | none => rfl
  | some c => exact apply_toLower (· == '\n') (by decide) c

lemma holds_toLower (i : Nat) (a : Assertion) : a.holds t.toLower i = a.holds t i := by
  have hboundary : t.toLower.isBoundary i = t.isBoundary i := by
    simp [isBoundary,Option.any_map]
  cases a with
  | textStart => rfl
  | textEnd => rw [Assertion.holds,Assertion.holds,size_toLower]
  | lineStart => rw [Assertion.holds,Assertion.holds,charBefore?_toLower,isNewline_toLower,origin_toLower]
  | lineEnd => rw [Assertion.holds,Assertion.holds,charAt?_toLower,isNewline_toLower,size_toLower]
  | wordBoundary => rw [Assertion.holds,Assertion.holds,hboundary]
  | notWordBoundary => rw [Assertion.holds,Assertion.holds,hboundary]

end Haystack

section Matching

variable {p : Pattern} {r : Regex}

/-- Without backtracking a pattern leads to the same spots in the text with small letters. -/
theorem ways_toLower (t : Haystack) (h : p.Caseless) : p.ways t.toLower = p.ways t := by
  induction p with
  | empty => rfl
  | set s =>
    funext i
    rw [Pattern.ways,Pattern.ways,t.charAt?_toLower]
    cases t.charAt? i.position with
    | none => rfl
    | some c => simp only [Option.map_some,h c]
  | assert a =>
    funext i
    rw [Pattern.ways,Pattern.ways,t.holds_toLower]
  | cat p q ihp ihq =>
    funext i
    rw [Pattern.ways,Pattern.ways,ihp h.1,ihq h.2]
  | alt p q ihp ihq =>
    funext i
    rw [Pattern.ways,Pattern.ways,ihp h.1,ihq h.2]
  | group n p ih =>
    funext i
    rw [Pattern.ways,Pattern.ways,ih h]
  | loop p least most greedy ih =>
    funext i
    rw [Pattern.ways,Pattern.ways,ih h,t.size_toLower]
  | look direction negated settled p ih =>
    funext i
    rw [Pattern.ways,Pattern.ways,ih h,t.origin_toLower]
  | backref n => exact h.elim
  | atomic settled p ih =>
    funext i
    rw [Pattern.ways,Pattern.ways,ih h]

/-- With backtracking it does as well, at the same cost. -/
theorem attempt_toLower (t : Haystack) (h : p.Caseless) : p.attempt t.toLower = p.attempt t := by
  induction p with
  | empty => rfl
  | set s =>
    funext i budget rest
    rw [Pattern.attempt,Pattern.attempt,t.charAt?_toLower]
    cases t.charAt? i.position with
    | none => rfl
    | some c => simp only [Option.map_some,h c]
  | assert a =>
    funext i budget rest
    rw [Pattern.attempt,Pattern.attempt,t.holds_toLower]
  | cat p q ihp ihq =>
    funext i budget rest
    rw [Pattern.attempt,Pattern.attempt,ihp h.1,ihq h.2]
  | alt p q ihp ihq =>
    funext i budget rest
    rw [Pattern.attempt,Pattern.attempt,ihp h.1,ihq h.2]
  | group n p ih =>
    funext i budget rest
    rw [Pattern.attempt,Pattern.attempt,ih h]
  | loop p least most greedy ih =>
    funext i budget rest
    cases most with
    | none => rw [Pattern.attempt,Pattern.attempt,ih h,t.size_toLower]
    | some most => rw [Pattern.attempt,Pattern.attempt,ih h]
  | look direction negated settled p ih =>
    funext i budget rest
    rw [Pattern.attempt,Pattern.attempt,ih h,ways_toLower (p := p) t h,t.origin_toLower]
  | backref n => exact h.elim
  | atomic settled p ih =>
    funext i budget rest
    rw [Pattern.attempt,Pattern.attempt,ih h,ways_toLower (p := p) t h]

lemma searchPlain_toLower (t : Haystack) (h : p.Caseless) (n start : Nat) :
    searchPlain p t.toLower n start = searchPlain p t n start := by
  induction n generalizing start with
  | zero => rfl
  | succ n ih => rw [searchPlain,searchPlain,ways_toLower t h,ih]

lemma searchBacktracking_toLower (t : Haystack) (h : p.Caseless) (n start budget : Nat) :
    searchBacktracking p t.toLower n start budget = searchBacktracking p t n start budget := by
  induction n generalizing start budget with
  | zero => rfl
  | succ n ih =>
    rw [searchBacktracking,searchBacktracking,attempt_toLower t h]
    simp only [ih]

lemma search_toLower (t : Haystack) (h : r.pattern.Caseless) (start : Nat) :
    r.search t.toLower start = r.search t start := by
  rw [search,search,searchPlain_toLower t h,searchBacktracking_toLower t h,t.size_toLower]

lemma find_toLower (text : Source) (h : r.pattern.Caseless) (start : Nat) :
    r.find text.toLower start = r.find text start :=
  search_toLower { text } h start

lemma matchesIn_toLower (text : Source) (h : r.pattern.Caseless) (origin : Nat) :
    r.matchesIn text.toLower origin = r.matchesIn text origin := by
  rw [matchesIn,matchesIn,← search_toLower { text, origin } h]
  rfl

lemma findAll_toLower (text : Source) (h : r.pattern.Caseless) : r.findAll text.toLower = r.findAll text := by
  have hfrom : ∀ n start previous, r.matchesFrom text.toLower n start previous =
      r.matchesFrom text n start previous := by
    intro n
    induction n with
    | zero => exact fun _ _ => rfl
    | succ n ih =>
      intro start previous
      rw [matchesFrom,matchesFrom,text.size_toLower,find_toLower text h]
      simp only [ih]
  rw [findAll,findAll,text.size_toLower,hfrom]

end Matching

end Highlight.Regex
