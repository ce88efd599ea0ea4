import Highlight.Proofs.Regex.Costs
import Highlight.Proofs.Rules.Exec
import Highlight.Proofs.Rules.Found
import Highlight.Proofs.Rules.Lines

/-!
Searches beyond gaps. Where it is known which rules fail on what comes next, it is known which one fires, and
whether a search for it gives up on the way.
-/
namespace Highlight.Rules

open Regex

variable {rules : List Rule} {rule : Rule} {ic named : Bool} {text : Source} {p q i k m n : Nat}
variable {next : List (Option Char)}

/-- The patterns of rules whose matches come down to positions. -/
def PartsOf (rules : List Rule) (ignoreCase : Bool) (parts : List Pattern) : Prop :=
  rules.map (·.positional? ignoreCase) = parts.map some

instance (parts : List Pattern) : Decidable (PartsOf rules ic parts) := inferInstanceAs (Decidable (_ = _))

/-- Each of the patterns fails on what comes next. -/
def RefusedBy (parts : List Pattern) (next : List (Option Char)) : Prop :=
  ∀ part ∈ parts, (part.refuses? next).isSome = true

instance (parts : List Pattern) : Decidable (RefusedBy parts next) :=
  inferInstanceAs (Decidable (∀ part ∈ parts, _))

/-- No rule matches at positions from one to another. -/
def Gap (rules : List Rule) (ignoreCase : Bool) (text : Source) (p q : Nat) : Prop :=
  ∀ k, p ≤ k → k < q → ∀ i, endAt? rules ignoreCase text i k = none

namespace PartsOf

variable {parts : List Pattern} {part : Pattern}

lemma endAt?_of_getElem? (h : PartsOf rules ic parts) (hpart : parts[i]? = some part) (hq : q ≤ text.size) :
    endAt? rules ic text i q = (part.ends { text } q).head? := by
  have hmap := congrArg (·[i]?) h
  simp only [List.getElem?_map,hpart,Option.map_some] at hmap
  obtain ⟨rule,hrule,hpositional⟩ := Option.map_eq_some_iff.mp hmap
  rw [endAt?,hrule]
  exact Rule.end?_eq_head? hpositional hq

lemma endAt?_of_length_le (h : PartsOf rules ic parts) (hi : parts.length ≤ i) : endAt? rules ic text i q = none := by
  have hlength := congrArg List.length h
  rw [List.length_map,List.length_map] at hlength
  exact Rules.endAt?_of_length_le (hlength ▸ hi) q

lemma isPositional (h : PartsOf rules ic parts) (hpart : parts[i]? = some part) : part.isPositional = true := by
  have hmap := congrArg (·[i]?) h
  simp only [List.getElem?_map,hpart,Option.map_some] at hmap
  obtain ⟨rule,-,hpositional⟩ := Option.map_eq_some_iff.mp hmap
  obtain ⟨-,-,-,h,-⟩ := Rule.exists_of_positional? hpositional
  exact h

/-- A rule whose pattern fails does not match. -/
lemma endAt?_of_refused (h : PartsOf rules ic parts) (hi : parts.length ≤ i ∨ ∃ part, parts[i]? = some part ∧
      (part.refuses? next).isSome = true) (hshows : Haystack.Shows { text } q next) (hq : q ≤ text.size) :
    endAt? rules ic text i q = none := by
  rcases hi with hi | ⟨part,hpart,hrefuses⟩
  · exact h.endAt?_of_length_le hi
  · obtain ⟨n,hn⟩ := Option.isSome_iff_exists.mp hrefuses
    rw [h.endAt?_of_getElem? hpart hq,ends_eq_nil_of_refuses? (h.isPositional hpart) hn hshows hq]
    rfl

lemma endAt?_eq_none (h : PartsOf rules ic parts) (hrefused : RefusedBy parts next)
    (hshows : Haystack.Shows { text } q next) (hq : q ≤ text.size) (i : Nat) :
    endAt? rules ic text i q = none := by
  refine h.endAt?_of_refused ?_ hshows hq
  rcases Nat.lt_or_ge i parts.length with hlt | hge
  · exact .inr ⟨parts[i],List.getElem?_eq_getElem hlt,hrefused _ (List.getElem_mem hlt)⟩
  · exact .inl hge

/-- After a gap, a rule fires that matches where those before it fail. -/
lemma fires (h : PartsOf rules ic parts) (hgap : Gap rules ic text p q) (hp : p ≤ q) (hq : q ≤ text.size)
    (hrule : rules[i]? = some rule) (hpart : parts[i]? = some part) (hbefore : RefusedBy (parts.take i) next)
    (hshows : Haystack.Shows { text } q next) (hgoes : part.GoesTo { text } q k m) :
    Fires rules ic text p 0 ⟨q,k,rule.kind,i⟩ where
  start_le := hp
  start_le_size := hq
  first_le := Nat.zero_le _
  kind := congrArg (Option.map Rule.kind) hrule
  stop := by rw [h.endAt?_of_getElem? hpart hq,hgoes.head?_ends (h.isPositional hpart)]
  least j _ hj := by
    have hlt : j < parts.length := Nat.lt_trans hj (List.getElem?_eq_some_iff.mp hpart).1
    have hmem : parts[j] ∈ parts.take i := List.mem_of_getElem? (i := j)
      (by rw [List.getElem?_take_of_lt hj,List.getElem?_eq_getElem hlt])
    exact h.endAt?_of_refused (.inr ⟨_,List.getElem?_eq_getElem hlt,hbefore _ hmem⟩) hshows hq
  leftmost j hj hlt i _ := hgap j hj hlt i

end PartsOf

namespace RuleSet

variable {s : RuleSet} {found : Option RuleMatch}

/-- A rule set finds what fires first, unless a search gives up. -/
lemma exec_of_isFirst (h : build rules ic = .ok s) (hc : Combinable rules ic named)
    (hok : ∃ found, s.exec text p 0 = .ok found) (hfirst : IsFirst rules ic text p 0 found) :
    s.exec text p 0 = .ok found := by
  obtain rfl := Assembly.rules_of_build h
  obtain rfl := ignoreCase_of_build h
  obtain ⟨found',hexec⟩ := hok
  have hanswers : Answers s.rules s.ignoreCase text p 0 _ := answers_of_build h hc p 0
  rw [hexec] at hanswers ⊢
  rw [hfirst.unique hanswers]

/-- Where no pattern needs backtracking, what fires first is found. -/
lemma exec_of_plain (h : build rules ic = .ok s) (hc : Combinable rules ic named)
    (hplain : ∀ rule ∈ rules, (Regex.compileRule rule.pattern ic).toOption.all (·.plain) = true)
    (hfirst : IsFirst rules ic text p 0 found) : s.exec text p 0 = .ok found := by
  obtain ⟨found',hexec,-⟩ := exists_exec_of_plain h hc hplain p 0
  exact exec_of_isFirst h hc ⟨found',hexec⟩ hfirst

/-- Whether rules are joined to a pattern for backtracking. -/
def IsBacktracking (rules : List Rule) (ignoreCase : Bool) (pattern : Pattern) : Prop :=
  ((build rules ignoreCase).toOption.bind whole?).any (fun w => w.1 == some (pattern,false)) = true

instance (pattern : Pattern) : Decidable (IsBacktracking rules ic pattern) :=
  inferInstanceAs (Decidable (_ = _))

/-- A rule set for backtracking answers by a search of its pattern. -/
lemma exec_of_isBacktracking (h : build rules ic = .ok s) {pattern : Pattern}
    (hpattern : IsBacktracking rules ic pattern) (text : Source) (p : Nat) :
    (∀ found, searchBacktracking pattern { text } (text.size + 1 - p) p searchBudget = .ok found →
      ∃ found', s.exec text p 0 = .ok found') ∧
    (searchBacktracking pattern { text } (text.size + 1 - p) p searchBudget = .error .gaveUp →
      s.exec text p 0 = .error .searchGaveUp) := by
  rw [IsBacktracking,h] at hpattern
  obtain ⟨⟨_,branches⟩,hwhole,hregex⟩ := (Option.any_eq_true _ _).mp hpattern
  obtain rfl := beq_iff_eq.mp hregex
  obtain ⟨matcher,hregex,-,hexec⟩ := exec_of_whole? hwhole
  obtain ⟨r,hr,hread⟩ := Option.map_eq_some_iff.mp hregex
  obtain ⟨rfl,hplain⟩ := Prod.mk.inj hread
  have hfind : r.find text p = searchBacktracking r.pattern { text } (text.size + 1 - p) p searchBudget := by
    rw [Regex.find,Regex.search,hplain,if_neg Bool.false_ne_true]
    rfl
  rw [hexec,Matcher.exec,hr]
  dsimp only
  rw [hfind]
  refine ⟨fun found hfound => ?_,fun hgaveUp => ?_⟩
  · rw [hfound]
    cases found with
    | none => exact ⟨_,rfl⟩
    | some f => exact ⟨_,rfl⟩
  · rw [hgaveUp]

section Backtracking

variable {pattern : Pattern}

/-- A gap in which a pattern fails after the same number of returns at each position. -/
def CostlyGap (pattern : Pattern) (returns : Nat) (text : Source) (p q : Nat) : Prop :=
  ∀ k, p ≤ k → k < q → ∃ next, pattern.refuses? next = some returns ∧ Haystack.Shows { text } k next

lemma CostlyGap.attempt_eq_losing (h : CostlyGap pattern n text p q) (hq : q ≤ text.size + 1) {j : Nat} (hj : p ≤ j)
    (hlt : j < q) (b : Nat) : pattern.attempt { text } { position := j } b .found = .losing b n := by
  obtain ⟨next,hnext,hshows⟩ := h j hj hlt
  exact Regex.attempt_eq_losing hnext hshows (Nat.le_of_lt_succ (Nat.lt_of_lt_of_le hlt hq))
    (Rest.loses_none _ _) b

/-- What fires after a gap is found if the returns in the gap leave enough of the budget. -/
lemma exec_of_costlyGap (h : build rules ic = .ok s) (hc : Combinable rules ic named)
    (hpattern : IsBacktracking rules ic pattern) {found : RuleMatch} (hfires : Fires rules ic text p 0 found)
    (hgap : CostlyGap pattern n text p found.start) (hgoes : pattern.GoesTo { text } found.start k m)
    (hbudget : (found.start - p) * (n + 1) + m ≤ searchBudget) : s.exec text p 0 = .ok (some found) := by
  have hstart : p + (found.start - p) = found.start := Nat.add_sub_cancel' hfires.start_le
  have hsize := hfires.start_le_size
  refine exec_of_isFirst h hc ?_ (show IsFirst rules ic text p 0 (some found) from hfires)
  obtain ⟨f,hf⟩ := exists_searchBacktracking (fun q hq hlt b =>
    hgap.attempt_eq_losing (Nat.le_succ_of_le hsize) hq (hstart ▸ hlt) b) (by rwa [hstart])
    (show found.start - p < text.size + 1 - p by omega) hbudget
  exact (exec_of_isBacktracking h hpattern text p).1 f hf

/-- Nothing is found if the gap goes up to the end of the text. -/
lemma exec_of_costlyGap_end (h : build rules ic = .ok s) (hc : Combinable rules ic named)
    (hpattern : IsBacktracking rules ic pattern) (hnone : Gap rules ic text p (text.size + 1))
    (hgap : CostlyGap pattern n text p (text.size + 1)) (hp : p ≤ text.size)
    (hbudget : (text.size + 1 - p) * (n + 1) ≤ searchBudget) : s.exec text p 0 = .ok none := by
  have hfirst : IsFirst rules ic text p 0 none :=
    fun q hq hle i _ => hnone q hq (Nat.lt_succ_of_le hle) i
  refine exec_of_isFirst h hc ?_ hfirst
  have hend : p + (text.size + 1 - p) = text.size + 1 := by omega
  have hsearch := searchBacktracking_losing (fun q hq hlt b =>
    hgap.attempt_eq_losing (Nat.le_refl _) hq (hend ▸ hlt) b) 0 (b := searchBudget)
  rw [if_pos hbudget] at hsearch
  exact (exec_of_isBacktracking h hpattern text p).1 none hsearch

/-- A gap for which the budget is not enough makes a search give up. -/
lemma exec_of_costlyGap_gaveUp (h : build rules ic = .ok s) (hpattern : IsBacktracking rules ic pattern)
    (hgap : CostlyGap pattern n text p q) (hp : p ≤ q) (hq : q ≤ text.size)
    (hbudget : searchBudget < (q - p) * (n + 1)) : s.exec text p 0 = .error .searchGaveUp := by
  have hend : p + (q - p) = q := Nat.add_sub_cancel' hp
  have hsearch := searchBacktracking_losing (fun j hj hlt b =>
    hgap.attempt_eq_losing (Nat.le_succ_of_le hq) hj (hend ▸ hlt) b) (text.size + 1 - q) (b := searchBudget)
  rw [if_neg (Nat.not_le.mpr hbudget),show q - p + (text.size + 1 - q) = text.size + 1 - p by omega] at hsearch
  exact (exec_of_isBacktracking h hpattern text p).2 hsearch

end Backtracking

end RuleSet

end Highlight.Rules
