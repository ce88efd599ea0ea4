import Highlight.Proofs.Except
import Highlight.Proofs.Regex.Search
import Highlight.Rules.Matcher

/-! What a combined matcher can answer: a match in the text, of the kind of one of its rules. -/
namespace Highlight.Rules

variable {text : Source} {start first : Nat} {found : RuleMatch}

/-- A match lies in the text, at or after the start of the search. -/
structure RuleMatch.Within (m : RuleMatch) (text : Source) (start : Nat) : Prop where
  start_le : start ≤ m.start
  start_le_stop : m.start ≤ m.stop
  stop_le : m.stop ≤ text.size

namespace Matcher

lemma exec_within {m : Matcher} (h : m.exec text start = .ok (some found)) :
    found.Within text start := by
  simp only [exec] at h
  cases hr : m.regex with
  | none => simp [hr] at h
  | some regex =>
    simp only [hr] at h
    cases hf : regex.find text start with
    | error e => simp [hf] at h
    | ok f? =>
      cases f? with
      | none => simp [hf] at h
      | some f =>
        simp only [hf,Except.ok.injEq,Option.map_eq_some_iff] at h
        obtain ⟨b,-,rfl⟩ := h
        obtain ⟨h1,h2,h3⟩ := Regex.search_bounds hf
        exact ⟨h1,h2,h3⟩

/-- A search from where a match starts finds it again, or gives up. -/
lemma exec_again {m : Matcher} (h : m.exec text start = .ok (some found)) :
    m.exec text found.start = .ok (some found) ∨ m.exec text found.start = .error .searchGaveUp := by
  rw [exec] at h
  split at h
  · cases h
  · rename_i regex hregex
    split at h
    · cases h
    · cases h
    · rename_i f hf
      obtain ⟨b,hb,rfl⟩ := Option.map_eq_some_iff.mp (Except.ok.inj h)
      simp only [exec,hregex]
      rcases hagain : regex.find text f.start with ⟨⟨⟩⟩ | f?
      · exact .inr rfl
      · obtain rfl := Regex.search_from_match hf hagain
        simp only [hb,Option.map_some,true_or]

lemma exists_branch_of_exec {m : Matcher} (h : m.exec text start = .ok (some found)) :
    ∃ b ∈ m.branches, b.kind = found.kind ∧ b.index = found.index := by
  simp only [exec] at h
  split at h
  · simp at h
  · split at h
    · simp at h
    · simp at h
    · simp only [Except.ok.injEq,Option.map_eq_some_iff] at h
      obtain ⟨b,hb,rfl⟩ := h
      exact ⟨b,List.mem_of_find?_eq_some hb,rfl,rfl⟩

lemma exists_rule_of_branch {rules : List Rule} {ignoreCase : Bool} {m : Matcher}
    (h : build rules first ignoreCase = .ok m) {b : Branch} (hb : b ∈ m.branches) :
    ∃ rule ∈ rules, rule.kind = b.kind := by
  simp only [build] at h
  split at h
  · cases h
    cases hb
  · split at h
    · cases h
      obtain ⟨i,hi,rfl⟩ := List.mem_mapIdx.mp hb
      have hmem := List.getElem_mem hi
      exact ⟨_,(List.of_mem_zip hmem).2,rfl⟩
    · cases h

end Matcher

namespace RuleSet

variable {s : RuleSet}

lemma exec_eq_matcher (h : s.exec text start first = .ok (some found)) :
    ∃ m, Matcher.build (s.rules.drop first) first s.ignoreCase = .ok m ∧
      m.exec text start = .ok (some found) := by
  simp only [exec] at h
  split at h
  · simp at h
  · rename_i thunk hs
    have hg := s.get_of_suffixes first thunk hs
    split at h
    · rename_i m hm
      exact ⟨m,hg ▸ hm,h⟩
    · cases h

/-- What fires lies in the text, at or after the start of the search. -/
theorem exec_within (h : s.exec text start first = .ok (some found)) :
    found.Within text start := by
  obtain ⟨m,-,hm⟩ := exec_eq_matcher h
  exact Matcher.exec_within hm

/-- What fires first from a position on, fires first from its own start on, unless the search gives up. -/
theorem exec_again (h : s.exec text start first = .ok (some found)) :
    s.exec text found.start first = .ok (some found) ∨
      s.exec text found.start first = .error .searchGaveUp := by
  rw [exec] at h
  split at h
  · cases h
  · rename_i hs
    split at h
    · rename_i hm
      simp only [exec,hs,hm]
      exact Matcher.exec_again h
    · cases h

/-- What fires is one of the rules. -/
theorem exists_rule_of_exec (h : s.exec text start first = .ok (some found)) :
    ∃ rule ∈ s.rules, rule.kind = found.kind := by
  obtain ⟨m,hbuild,hm⟩ := exec_eq_matcher h
  obtain ⟨b,hb,hk,-⟩ := Matcher.exists_branch_of_exec hm
  obtain ⟨rule,hr,hrk⟩ := Matcher.exists_rule_of_branch hbuild hb
  exact ⟨rule,List.mem_of_mem_drop hr,hrk.trans hk⟩

/-- What the matcher of a whole list of rules searches for, and what its groups stand for. -/
def whole? (s : RuleSet) :
    Option (Option (Regex.Pattern × Bool) × List (Nat × RuleKind × Nat)) := do
  let matcher ← s.suffixes[0]?
  let m ← matcher.get.toOption
  return (m.regex.map (fun r => (r.pattern,r.plain)),m.branches.map (fun b => (b.group,b.kind,b.index)))

lemma exec_of_whole? {s : RuleSet} {regex : Option (Regex.Pattern × Bool)}
    {branches : List (Nat × RuleKind × Nat)} (h : s.whole? = some (regex,branches)) :
    ∃ m : Matcher, m.regex.map (fun r => (r.pattern,r.plain)) = regex ∧
      m.branches = branches.map (fun b => ⟨b.1,b.2.1,b.2.2⟩) ∧
      ∀ text start, s.exec text start 0 = m.exec text start := by
  obtain ⟨matcher,hmatcher,h⟩ := Option.bind_eq_some_iff.mp h
  obtain ⟨m,hm,h⟩ := Option.bind_eq_some_iff.mp h
  obtain ⟨hregex,hbranches⟩ := Prod.mk.inj (Option.some.inj h)
  refine ⟨m,hregex,?_,fun text start => ?_⟩
  · rw [← hbranches,List.map_map]
    exact (List.map_id _).symm
  · rw [RuleSet.exec,hmatcher]
    dsimp only
    rw [except_eq_ok_of_toOption hm]

end RuleSet
end Highlight.Rules
