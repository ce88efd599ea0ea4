import Highlight.Assembly.Draft
import Highlight.Proofs.Rules.Exec

/-!
The rule that matches the empty text anywhere. Word boundaries are for backtracking, but one of its two
alternatives holds at once, so that a search never gives up on it.
-/
namespace Highlight

open Regex

namespace Regex

/-- What the pattern for the empty text is read as. -/
def Pattern.zeroWidth : Pattern := .alt (.assert .notWordBoundary) (.assert .wordBoundary)

/-- One of the two alternatives holds. -/
lemma exists_attempt_zeroWidth (t : Haystack) (s : Spot) {budget : Nat} (hbudget : 0 < budget) {rest : Rest}
    {last : Spot} (hrest : ∀ b, ∃ left, rest s b = .found last left) :
    ∃ left, Pattern.zeroWidth.attempt t s budget rest = .found last left := by
  obtain ⟨b,rfl⟩ := Nat.exists_eq_add_one.mpr hbudget
  simp only [Pattern.zeroWidth,Pattern.attempt,Assertion.holds]
  by_cases hboundary : t.isBoundary s.position = true
  · simpa [hboundary] using hrest b
  · obtain ⟨left,hleft⟩ := hrest (b + 1)
    exact ⟨left,by simp [hboundary,hleft]⟩

/-- An alternative that comes first is the one that is found. -/
lemma exists_attempt_of_head? {p first : Pattern} (h : p.branches.head? = some first) {t : Haystack} {s : Spot}
    {budget : Nat} {rest : Rest} {last : Spot}
    (hfirst : ∃ left, first.attempt t s budget rest = .found last left) :
    ∃ left, p.attempt t s budget rest = .found last left := by
  obtain ⟨left,hleft⟩ := hfirst
  cases p with
  | alt p q =>
    obtain rfl := Option.some.inj h
    exact ⟨left,by rw [Pattern.attempt,hleft]; rfl⟩
  | _ =>
    obtain rfl := Option.some.inj h
    exact ⟨left,hleft⟩

lemma searchBacktracking_of_found {p : Pattern} {t : Haystack} {n start budget : Nat} {last : Spot}
    (h : ∃ left, p.attempt t { position := start } budget .found = .found last left) :
    searchBacktracking p t (n + 1) start budget = .ok (some { start, last }) := by
  obtain ⟨left,hleft⟩ := h
  rw [searchBacktracking,hleft]

/-- The end of a mode that closes at once matches where it is tried. -/
lemma matchesIn_zeroWidth {r : Regex} {ignoreCase : Bool}
    (h : Regex.compileAnchored Assembly.zeroWidth ignoreCase = .ok r) {text : Source} {q : Nat}
    (hq : q ≤ text.size) : r.matchesIn text q = .ok true := by
  have hread : (Regex.compileAnchored Assembly.zeroWidth ignoreCase).toOption.map
      (fun r => (r.pattern,r.plain)) = some (.cat (.assert .textStart) .zeroWidth,false) := by
    cases ignoreCase <;> decide +kernel
  rw [h] at hread
  obtain ⟨hpattern,hplain⟩ := Prod.mk.inj (Option.some.inj hread)
  have hsearch : r.search { text, origin := q } q = .ok (some ⟨q,{ position := q }⟩) := by
    have hsize : text.size + 1 - q = (text.size - q) + 1 := by omega
    rw [search,hplain,if_neg Bool.false_ne_true,hpattern,Haystack.size,hsize]
    apply searchBacktracking_of_found
    have hfound : ∀ b, ∃ left, Attempt.found { position := q } b = .found { position := q } left :=
      fun b => ⟨b,rfl⟩
    obtain ⟨left,hleft⟩ := exists_attempt_zeroWidth { text, origin := q } { position := q }
      (show 0 < searchBudget by decide) hfound
    exact ⟨left,by simpa [Pattern.attempt,Assertion.holds] using hleft⟩
  rw [matchesIn,hsearch]
  rfl

end Regex

namespace Rules.RuleSet

/-- Whether the first of the rules is of a kind and matches the empty text anywhere. -/
def startsEmpty (s : RuleSet) (kind : RuleKind) : Bool :=
  match s.whole? with
  | some (some (p,false),(1,kind',0) :: _) =>
    kind' == kind && p.branches.head? == some (.group 1 .zeroWidth)
  | _ => false

/-- Rules the first of which matches everywhere find it where the search starts. -/
theorem exec_of_startsEmpty {s : RuleSet} {kind : RuleKind} (h : s.startsEmpty kind = true) {text : Source}
    {start : Nat} (hstart : start ≤ text.size) :
    s.exec text start 0 = .ok (some ⟨start,start,kind,0⟩) := by
  unfold startsEmpty at h
  split at h
  · rename_i p kind' branches hwhole
    obtain ⟨hkind,hhead⟩ := Bool.and_eq_true_iff.mp h
    obtain rfl := beq_iff_eq.mp hkind
    obtain ⟨m,hregex,hbranches,hexec⟩ := exec_of_whole? hwhole
    obtain ⟨r,hr,hpattern⟩ := Option.map_eq_some_iff.mp hregex
    obtain ⟨rfl,hplain⟩ := Prod.mk.inj hpattern
    have hsize : text.size + 1 - start = (text.size - start) + 1 := by omega
    have hfind : r.find text start =
        .ok (some ⟨start,{ position := start, opened := [(1,start)], closed := [(1,start)] }⟩) := by
      rw [Regex.find,Regex.search,hplain,if_neg Bool.false_ne_true,Haystack.size,hsize]
      apply searchBacktracking_of_found
      apply exists_attempt_of_head? (beq_iff_eq.mp hhead)
      exact exists_attempt_zeroWidth { text } (Spot.openGroup { position := start } 1)
        (show 0 < searchBudget by decide) (fun b => ⟨b,rfl⟩)
    rw [hexec,Matcher.exec,hr]
    dsimp only
    rw [hfind,hbranches]
    rfl
  · cases h

lemma exec_of_build_startsEmpty {rules : List Rule} {kind : RuleKind} {ic : Bool} {s : RuleSet}
    (h : (build rules ic).toOption.any (·.startsEmpty kind) = true) (hs : build rules ic = .ok s)
    {text : Source} {start : Nat} (hstart : start ≤ text.size) :
    s.exec text start 0 = .ok (some ⟨start,start,kind,0⟩) := by
  rw [hs] at h
  exact exec_of_startsEmpty h hstart

/-- A mode that ends everywhere ends where it begins. -/
lemma exec_of_endsEmpty {ic : Bool} {s : RuleSet} (hs : build [⟨Assembly.zeroWidth,.ends⟩] ic = .ok s)
    {text : Source} {start : Nat} (hstart : start ≤ text.size) :
    s.exec text start 0 = .ok (some ⟨start,start,.ends,0⟩) :=
  exec_of_build_startsEmpty (by cases ic <;> decide +kernel) hs hstart

end Rules.RuleSet
end Highlight
