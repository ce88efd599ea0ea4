import Highlight.Proofs.Assembly.Table
import Highlight.Proofs.Rules.First

/-!
What the search by a rule set is known to find. There is at most one match to find, and a rule set whose
patterns are plain does find it.
-/
namespace Highlight.Rules

open Regex

variable {rules : List Rule} {ic named : Bool} {text : Source} {p first : Nat} {m : RuleMatch}

lemma endAt?_of_length_le {i : Nat} (hi : rules.length ≤ i) (q : Nat) :
    endAt? rules ic text i q = none := by
  rw [endAt?,List.getElem?_eq_none_iff.mpr hi]
  rfl

lemma IsFirst.not_fires (h : IsFirst rules ic text p first none) (m : RuleMatch) :
    ¬ Fires rules ic text p first m := by
  intro hm
  have hstop := hm.stop
  rw [h m.start hm.start_le hm.start_le_size m.index hm.first_le] at hstop
  cases hstop

lemma Fires.unique {m' : RuleMatch} (h : Fires rules ic text p first m)
    (h' : Fires rules ic text p first m') : m = m' := by
  have hstart : m.start = m'.start := by
    rcases Nat.lt_trichotomy m.start m'.start with hlt | heq | hlt
    · have hstop := h.stop
      rw [h'.leftmost m.start h.start_le hlt m.index h.first_le] at hstop
      cases hstop
    · exact heq
    · have hstop := h'.stop
      rw [h.leftmost m'.start h'.start_le hlt m'.index h'.first_le] at hstop
      cases hstop
  have hindex : m.index = m'.index := by
    rcases Nat.lt_trichotomy m.index m'.index with hlt | heq | hlt
    · have hstop := h.stop
      rw [hstart,h'.least m.index h.first_le hlt] at hstop
      cases hstop
    · exact heq
    · have hstop := h'.stop
      rw [← hstart,h.least m'.index h'.first_le hlt] at hstop
      cases hstop
  have hstop : m.stop = m'.stop := by
    have hstop := h.stop
    rw [hstart,hindex,h'.stop] at hstop
    exact (Option.some.inj hstop).symm
  have hkind : m.kind = m'.kind := by
    have hkind := h.kind
    rw [hindex,h'.kind] at hkind
    exact (Option.some.inj hkind).symm
  obtain ⟨start,stop,kind,index⟩ := m
  obtain rfl : start = m'.start := hstart
  obtain rfl : stop = m'.stop := hstop
  obtain rfl : kind = m'.kind := hkind
  obtain rfl : index = m'.index := hindex
  rfl

/-- There is at most one match to find. -/
lemma IsFirst.unique {found found' : Option RuleMatch} (h : IsFirst rules ic text p first found)
    (h' : IsFirst rules ic text p first found') : found = found' := by
  cases found with
  | none =>
    cases found' with
    | none => rfl
    | some m' => exact absurd h' (h.not_fires m')
  | some m =>
    cases found' with
    | none => exact absurd h (h'.not_fires m)
    | some m' => exact congrArg some (Fires.unique h h')

namespace RuleSet

variable {s : RuleSet}

lemma ignoreCase_of_build (h : build rules ic = .ok s) : s.ignoreCase = ic := by
  unfold build at h
  split at h
  · cases h
  · cases h
    rfl

/-- A rule set that was built finds what fires first. -/
lemma answers_of_build (h : build rules ic = .ok s) (hc : Combinable s.rules s.ignoreCase named)
    (start first : Nat) :
    Answers s.rules s.ignoreCase text start first (s.exec text start first) := by
  obtain ⟨full,hfull,-⟩ := Matcher.exec_answers (hc.drop 0)
  have hfull : Matcher.build s.rules 0 s.ignoreCase = .ok full := hfull
  obtain ⟨s',hs',hrules,-,hsize⟩ := exists_build hfull
  rw [← Assembly.rules_of_build h,← ignoreCase_of_build h] at h
  obtain rfl := Except.ok.inj (h.symm.trans hs')
  exact exec_answers hc hsize text start first

/-- Where no pattern needs backtracking, a search never gives up. -/
lemma exists_exec_of_plain (h : build rules ic = .ok s) (hc : Combinable rules ic named)
    (hplain : ∀ rule ∈ rules, (Regex.compileRule rule.pattern ic).toOption.all (·.plain) = true)
    (start first : Nat) : ∃ found, s.exec text start first = .ok found ∧
      IsFirst rules ic text start first found := by
  obtain rfl := Assembly.rules_of_build h
  obtain rfl := ignoreCase_of_build h
  have hanswers : Answers s.rules s.ignoreCase text start first _ := answers_of_build h hc start first
  cases hexec : s.exec text start first with
  | ok found =>
    rw [hexec] at hanswers
    exact ⟨found,rfl,hanswers⟩
  | error fault =>
    rw [hexec] at hanswers
    obtain ⟨-,rule,hrule,g,hg,hbacktracks⟩ := hanswers
    have hall := hplain rule (List.mem_of_mem_drop hrule)
    rw [hg] at hall
    exact absurd (hbacktracks.symm.trans hall) Bool.false_ne_true

end RuleSet

end Highlight.Rules
